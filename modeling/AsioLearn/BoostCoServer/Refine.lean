import AsioLearn.BoostCoServer.Start
import Mathlib.Data.List.TakeWhile

/-!
# `Start` is the decoder up to the first empty payload

The coroutine reads each header and each payload whole, so it has no state inside a frame: a pass
of the loop is one frame of the wire decoder, or the end. It differs from the decoder in one
point: an `async_read` of no bytes completes with `0`, which the code takes for a peer that has
closed the connection.

Results:
* `loopBody_short`, `loopBody_header`, `readPayload_*`: one lemma for each way through a pass;
* `start_refines`: on any stream the coroutine posts the decoder's messages up to the first one
  with an empty payload, and ends as the decoder's state calls for if there is none;
* `start_roundtrip_iff`: it gives back what `SendNode` encoded exactly when no payload is empty.
-/

namespace AsioLearn.BoostCoServer

open AsioLearn.Cpp AsioLearn.Wire AsioLearn.Lib AsioLearn.Lib.Transducer

/-! ## Outcomes -/

/-- What the `catch` block leaves the connection in. -/
def hungUp (closeThrows : Bool) : Outcome := if closeThrows then .stranded else .cleared

/-- The outcome of a header the decoder stops at. -/
def stopOutcome (closeThrows : Bool) (h : Header) : Outcome :=
  if ¬ h.IdOk ∨ maxLength < h.len.toInt then .cleared
  else if h.len.toInt = -1 then .undefined
  else hungUp closeThrows

/-- The outcome of a decoder state. -/
def decOutcome (closeThrows : Bool) : DecState → Outcome
  | .stopped h => stopOutcome closeThrows h
  | _ => .reading

/-- The message has a payload. -/
def solid (p : Post) : Bool := !p.2.isEmpty

/-- Between two frames: the header node is whole, and nothing has been closed or cleared. -/
structure Live (s : Session) : Prop where
  head : HeadNode s.recvHeadNode
  open_ : s.bClose = false
  kept : s.cleared = false

/-- The session `s'` has posted what `s` has. -/
structure Keeps (s s' : Session) : Prop where
  live : Live s'
  posted : s'.posted = s.posted

theorem catchBlock_outcome {closeThrows : Bool} {s : Session} (h : s.cleared = false) :
    (s.catchBlock closeThrows).outcome = hungUp closeThrows ∧
      (s.catchBlock closeThrows).session.posted = s.posted := by
  cases closeThrows with
  | false => exact ⟨rfl, rfl⟩
  | true =>
    refine ⟨?_, rfl⟩
    show (if s.cleared then Outcome.cleared else .stranded) = .stranded
    rw [h]
    rfl

/-! ## One pass of the loop -/

@[simp]
theorem attempt_ok {α : Type} (closeThrows : Bool) (s : Session) (a : α) :
    s.attempt closeThrows (.ok a) = .ok a := rfl

theorem asyncRead_done {mem input : List UInt8} {n : Nat} (hm : n ≤ mem.length)
    (hi : n ≤ input.length) :
    asyncRead mem n input = .ok (.done (input.take n ++ mem.drop n) n (input.drop n)) := by
  unfold asyncRead
  rw [if_neg (not_lt.mpr hm), if_pos hi]

theorem asyncRead_waiting {mem input : List UInt8} {n : Nat} (hm : n ≤ mem.length)
    (hi : input.length < n) :
    asyncRead mem n input = .ok (.waiting (input ++ mem.drop input.length)) := by
  unfold asyncRead
  rw [if_neg (not_lt.mpr hm), if_neg (not_le.mpr hi)]

variable {heap : Nat → Nat → UInt8} {closeThrows : Bool}

/-- Not even a header: the coroutine waits. -/
theorem loopBody_short {s : Session} {input : List UInt8} (h : Live s)
    (hlt : input.length < headTotalLen) :
    ∃ t, loopBody heap closeThrows ⟨s, input⟩ = .error (.reading t) ∧ t.posted = s.posted := by
  obtain ⟨data, hclear, hlen, -⟩ := clear_head h.head
  have hread := @asyncRead_waiting data input headTotalLen (by rw [hlen]; decide) hlt
  unfold loopBody
  simp only [bind, Except.bind, hclear, attempt_ok, hread]
  exact ⟨_, rfl, rfl⟩

/-- A header: rejected, or the payload is next. -/
theorem loopBody_header {s : Session} {b₀ b₁ b₂ b₃ : UInt8} {zs : List UInt8} (h : Live s) :
    ∃ t, Keeps s t ∧ loopBody heap closeThrows ⟨s, b₀ :: b₁ :: b₂ :: b₃ :: zs⟩ =
      if maxLength < (Header.ofBytes b₀ b₁ b₂ b₃).id.toInt
          ∨ maxLength < (Header.ofBytes b₀ b₁ b₂ b₃).len.toInt then
        .error (.ended t.clearSession)
      else
        readPayload heap closeThrows t (Header.ofBytes b₀ b₁ b₂ b₃).id
          (Header.ofBytes b₀ b₁ b₂ b₃).len zs := by
  obtain ⟨data, hclear, hlen, -⟩ := clear_head h.head
  have hread := @asyncRead_done data (b₀ :: b₁ :: b₂ :: b₃ :: zs) headTotalLen
    (by rw [hlen]; decide) (show 4 ≤ zs.length + 4 from Nat.le_add_left 4 _)
  have hid : loadShort ([b₀, b₁, b₂, b₃] ++ data.drop 4) 0 = .ok (networkToHostShort b₀ b₁) := rfl
  have hln : loadShort ([b₀, b₁, b₂, b₃] ++ data.drop 4) headIdLen
      = .ok (networkToHostShort b₂ b₃) := rfl
  refine ⟨{ s with recvHeadNode := ⟨[b₀, b₁, b₂, b₃] ++ data.drop 4, 0, 4⟩ },
    ⟨⟨⟨rfl, rfl, ?_⟩, h.open_, h.kept⟩, rfl⟩, ?_⟩
  · show ([b₀, b₁, b₂, b₃] ++ data.drop 4).length = 5
    rw [List.length_append, List.length_drop, hlen]
    rfl
  · have htake : (b₀ :: b₁ :: b₂ :: b₃ :: zs).take headTotalLen ++ data.drop headTotalLen
        = [b₀, b₁, b₂, b₃] ++ data.drop 4 := rfl
    rw [htake] at hread
    unfold loopBody
    simp only [bind, Except.bind, hclear, attempt_ok, hread, hid]
    rw [if_neg (show ¬ headTotalLen = 0 by decide)]
    by_cases hi : (maxLength : Int) < (networkToHostShort b₀ b₁).toInt
    · rw [if_pos hi]
      exact (if_pos (Or.inl hi)).symm
    · rw [if_neg hi]
      simp only [hln, attempt_ok]
      by_cases hl : (maxLength : Int) < (networkToHostShort b₂ b₃).toInt
      · rw [if_pos hl]
        exact (if_pos (Or.inr hl)).symm
      · rw [if_neg hl]
        exact (if_neg (not_or.mpr ⟨hi, hl⟩)).symm

/-- A negative length: the allocation throws, or the terminator is written outside the block. -/
theorem readPayload_negative {s : Session} {id len : Int16} {input : List UInt8} (h : Live s)
    (hneg : len.toInt < 0) :
    ∃ e, readPayload heap closeThrows s id len input = .error e ∧ e.session.posted = s.posted ∧
      e.outcome = if len.toInt = -1 then .undefined else hungUp closeThrows := by
  unfold readPayload
  by_cases h1 : len.toInt = -1
  · rw [RecvNode.new_error (MsgNode.new_minus_one h1), if_pos h1]
    exact ⟨.undefined s, rfl, rfl, rfl⟩
  · rw [RecvNode.new_error (MsgNode.new_throws (by omega)), if_neg h1]
    obtain ⟨hout, hposted⟩ := @catchBlock_outcome closeThrows s h.kept
    exact ⟨s.catchBlock closeThrows, rfl, hposted, hout⟩

/-- An empty payload is taken for a closed connection. -/
theorem readPayload_empty {s : Session} {id len : Int16} {input : List UInt8}
    (h0 : len.toInt = 0) :
    ∃ e, readPayload heap closeThrows s id len input = .error e ∧ e.session.posted = s.posted ∧
      e.outcome = .cleared ∧ ∀ t, e ≠ .reading t := by
  obtain ⟨n, hnew, -, htot, -, hlen⟩ :=
    @RecvNode.new_ok (heap s.posted.length) len id h0.ge
  have hsize : sizeT n.totalLen.toInt = 0 := by rw [htot, h0]; rfl
  have hread := @asyncRead_done n.data input 0 (Nat.zero_le _) (Nat.zero_le _)
  unfold readPayload
  simp only [bind, Except.bind, hnew, attempt_ok, hsize, hread]
  rw [if_pos trivial]
  exact ⟨_, rfl, rfl, rfl, fun t ht => Exit.noConfusion ht⟩

/-- The payload is not all there: the coroutine waits. -/
theorem readPayload_short {s : Session} {id len : Int16} {input : List UInt8}
    (h0 : 0 ≤ len.toInt) (hlt : input.length < len.toInt.toNat) :
    ∃ t, readPayload heap closeThrows s id len input = .error (.reading t) ∧
      t.posted = s.posted := by
  obtain ⟨n, hnew, -, htot, -, hlen⟩ := @RecvNode.new_ok (heap s.posted.length) len id h0
  have hsize : sizeT n.totalLen.toInt = len.toInt.toNat := by rw [htot, sizeT_short h0]
  have hread := @asyncRead_waiting n.data input len.toInt.toNat (by omega) hlt
  unfold readPayload
  simp only [bind, Except.bind, hnew, attempt_ok, hsize, hread]
  exact ⟨_, rfl, rfl⟩

/-- The payload is read and the message posted. -/
theorem readPayload_full {s : Session} {id len : Int16} {input : List UInt8} (h : Live s)
    (h0 : 0 < len.toInt) (hle : len.toInt.toNat ≤ input.length) :
    ∃ t, readPayload heap closeThrows s id len input
        = .ok ⟨t, input.drop len.toInt.toNat⟩ ∧ Live t ∧
      t.posts = s.posts ++ [(id, input.take len.toInt.toNat)] := by
  obtain ⟨n, hnew, -, htot, hmid, hlen⟩ :=
    @RecvNode.new_ok (heap s.posted.length) len id (by omega)
  have hsize : sizeT n.totalLen.toInt = len.toInt.toNat := by rw [htot, sizeT_short (by omega)]
  have hread := @asyncRead_done n.data input len.toInt.toNat (by omega) hle
  have htake : (input.take len.toInt.toNat).length = len.toInt.toNat := by
    rw [List.length_take]
    omega
  set block := input.take len.toInt.toNat ++ n.data.drop len.toInt.toNat with hblock
  have hstore := @store_ok block len.toInt.toNat 0 (Int.natCast_nonneg _) (by
    rw [hblock, List.length_append, htake, List.length_drop]
    omega)
  unfold readPayload
  simp only [bind, Except.bind, hnew, attempt_ok, hsize, hread]
  rw [if_neg (by omega), hstore]
  refine ⟨_, rfl, ⟨h.head, h.open_, h.kept⟩, ?_⟩
  show (s.posted ++ [_]).map view = s.posts ++ [_]
  rw [List.map_append, List.map_singleton]
  refine congrArg (fun p => s.posts ++ [p]) (Prod.ext hmid ?_)
  show (block.set _ 0).take (sizeT n.totalLen.toInt) = input.take len.toInt.toNat
  rw [hsize, Int.toNat_natCast, List.take_set_of_le le_rfl, hblock,
    List.take_append_of_le_length htake.ge, List.take_of_length_le htake.le]

/-! ## The whole stream -/

/-- How the coroutine ends on a stream the decoder takes to `D`, posting `ps`. -/
structure Follows (closeThrows : Bool) (before : List Post) (e : Exit) (D : DecState)
    (ps : List Post) : Prop where
  posts : e.session.posts = before ++ ps.takeWhile solid
  outcome : e.outcome =
    if ps.all solid then decOutcome closeThrows D else .cleared

theorem posts_eq {s t : Session} (h : t.posted = s.posted) : t.posts = s.posts :=
  congrArg (List.map view) h

/-- The coroutine waits inside a frame. -/
theorem follows_reading {s t : Session} {D : DecState} (h : t.posted = s.posted)
    (hD : decOutcome closeThrows D = .reading) :
    Follows closeThrows s.posts (.reading t) D [] where
  posts := by
    rw [List.takeWhile_nil, List.append_nil]
    exact posts_eq h
  outcome := hD.symm

/-- A header that is not rejected, by its length: the payload is negative, empty, not all there, or
read. -/
theorem readPayload_spec {s t : Session} {hd : Header} {zs : List UInt8} (h : Live t)
    (hposted : t.posted = s.posted) (hid : hd.IdOk) (hle : hd.len.toInt ≤ maxLength) :
    (∃ e, readPayload heap closeThrows t hd.id hd.len zs = .error e ∧
      Follows closeThrows s.posts e (feed DecState.step hd.enter.1 zs).1
        (hd.enter.2 ++ (feed DecState.step hd.enter.1 zs).2)) ∨
    (∃ t' rest p, readPayload heap closeThrows t hd.id hd.len zs = .ok ⟨t', rest⟩ ∧ Live t' ∧
      t'.posts = s.posts ++ [p] ∧ solid p = true ∧ rest.length ≤ zs.length ∧
      ((feed DecState.step hd.enter.1 zs).1, hd.enter.2 ++ (feed DecState.step hd.enter.1 zs).2) =
        ((decode rest).1, p :: (decode rest).2)) := by
  rcases lt_trichotomy hd.len.toInt 0 with hneg | h0 | hpos
  · obtain ⟨e, hp, hpe, hout⟩ := @readPayload_negative heap closeThrows t hd.id hd.len zs h hneg
    rw [enter_stopped (fun ha => absurd ha.2.1 (not_le.mpr hneg)), feed_stopped]
    refine Or.inl ⟨e, hp, ?_, hout.trans ?_⟩
    · exact (posts_eq (hpe.trans hposted)).trans (List.append_nil _).symm
    · have hok : ¬ (¬ hd.IdOk ∨ (maxLength : Int) < hd.len.toInt) := by
        rintro (hc | hc)
        · exact hc hid
        · omega
      exact (if_neg hok).symm
  · have ha : hd.Accepted := ⟨hid, h0.ge, hle⟩
    obtain ⟨e, hp, hpe, hout, -⟩ := @readPayload_empty heap closeThrows t hd.id hd.len zs h0
    rw [enter_empty ha h0]
    refine Or.inl ⟨e, hp, ?_, hout⟩
    exact (posts_eq (hpe.trans hposted)).trans (List.append_nil _).symm
  · have ha : hd.Accepted := ⟨hid, hpos.le, hle⟩
    rw [enter_accepted ha (by omega)]
    by_cases hshort : zs.length < hd.len.toInt.toNat
    · obtain ⟨t', hp, hpe⟩ := @readPayload_short heap closeThrows t hd.id hd.len zs hpos.le hshort
      rw [feed_payload_short (by simpa using hshort)]
      exact Or.inl ⟨_, hp, follows_reading (hpe.trans hposted) rfl⟩
    · obtain ⟨t', hp, hlive', hpe⟩ :=
        @readPayload_full heap closeThrows t hd.id hd.len zs h hpos (not_lt.mp hshort)
      rw [feed_payload_full (by rw [List.length_nil]; omega) (by rw [List.length_nil]; omega)]
      refine Or.inr ⟨t', _, (hd.id, zs.take hd.len.toInt.toNat), hp, hlive', ?_, ?_, ?_, rfl⟩
      · rw [hpe, posts_eq hposted]
      · have hne : zs.take hd.len.toInt.toNat ≠ [] := by
          refine List.ne_nil_of_length_pos ?_
          rw [List.length_take]
          omega
        unfold solid
        rw [List.isEmpty_eq_false_iff.mpr hne]
        rfl
      · rw [List.length_drop]
        exact Nat.sub_le _ _

/-- **One pass**: it ends as the decoder does on what is left of the stream, or it takes one frame
off its front. -/
theorem loopBody_spec {s : Session} {input : List UInt8} (h : Live s) :
    (∃ e, loopBody heap closeThrows ⟨s, input⟩ = .error e ∧
      Follows closeThrows s.posts e (decode input).1 (decode input).2) ∨
    (∃ t rest p, loopBody heap closeThrows ⟨s, input⟩ = .ok ⟨t, rest⟩ ∧ Live t ∧
      t.posts = s.posts ++ [p] ∧ solid p = true ∧ rest.length < input.length ∧
      decode input = ((decode rest).1, p :: (decode rest).2)) := by
  by_cases hlt : input.length < headTotalLen
  · obtain ⟨t, hbody, hposted⟩ := @loopBody_short heap closeThrows s input h hlt
    refine Or.inl ⟨_, hbody, ?_⟩
    unfold decode
    rw [feed_header_short (by simpa using hlt)]
    exact follows_reading hposted rfl
  · obtain ⟨b₀, b₁, b₂, b₃, zs, rfl⟩ := exists_four hlt
    obtain ⟨t, ⟨hlive, hposted⟩, hbody⟩ := @loopBody_header heap closeThrows s b₀ b₁ b₂ b₃ zs h
    have hdecode := feed_header b₀ b₁ b₂ b₃ zs
    set hd := Header.ofBytes b₀ b₁ b₂ b₃
    by_cases hbad : (maxLength : Int) < hd.id.toInt ∨ (maxLength : Int) < hd.len.toInt
    · have hrej : ¬ hd.IdOk ∨ (maxLength : Int) < hd.len.toInt :=
        hbad.imp_left fun hc hid => absurd hc (not_lt.mpr hid)
      have hna : ¬ hd.Accepted := by
        rintro ⟨hid, -, hle⟩
        rcases hbad with hc | hc
        · exact absurd hc (not_lt.mpr hid)
        · exact absurd hc (not_lt.mpr hle)
      rw [if_pos hbad] at hbody
      rw [enter_stopped hna, feed_stopped] at hdecode
      unfold decode
      rw [hdecode]
      refine Or.inl ⟨_, hbody, ?_, ?_⟩
      · exact (posts_eq hposted).trans (List.append_nil _).symm
      · exact (show stopOutcome closeThrows hd = .cleared from if_pos hrej).symm
    · rw [if_neg hbad] at hbody
      obtain ⟨hid, hle⟩ := not_or.mp hbad
      unfold decode
      rw [hbody, hdecode]
      rcases @readPayload_spec heap closeThrows s t hd zs hlive hposted (not_lt.mp hid)
        (not_lt.mp hle) with hend | ⟨t', rest, p, hp, hlive', hposts, hsolid, hlen, hrest⟩
      · exact Or.inl hend
      · refine Or.inr ⟨t', rest, p, hp, hlive', hposts, hsolid, ?_, hrest⟩
        simp only [List.length_cons]
        omega

/-- The loop, with fuel for every byte left. -/
theorem iterate_refines {fuel : Nat} {s : Session} {input : List UInt8} (h : Live s)
    (hfuel : input.length < fuel) :
    ∃ e, Loop.iterate loopCond (loopBody heap closeThrows) fuel ⟨s, input⟩ = some (.error e) ∧
      Follows closeThrows s.posts e (decode input).1 (decode input).2 := by
  induction fuel generalizing s input with
  | zero => exact absurd hfuel (Nat.not_lt_zero _)
  | succ fuel ih =>
    have hcond : loopCond ⟨s, input⟩ = true := by
      unfold loopCond
      rw [h.open_]
      rfl
    rcases @loopBody_spec heap closeThrows s input h with
      ⟨e, hbody, hf⟩ | ⟨t, rest, p, hbody, hlive, hposts, hp, hlt, hdec⟩
    · exact ⟨e, Loop.iterate_error hcond hbody, hf⟩
    · obtain ⟨e, hrun, hf⟩ := ih hlive (by omega : rest.length < fuel)
      refine ⟨e, by rw [Loop.iterate_next hcond hbody, hrun], ?_⟩
      rw [hdec]
      constructor
      · rw [hf.posts, hposts, List.takeWhile_cons_of_pos hp, List.append_assoc,
          List.singleton_append]
      · rw [hf.outcome, List.all_cons, hp, Bool.true_and]

/-- **`Start` on any stream** is the decoder up to the first empty payload. -/
theorem start_refines {s : Session} (h : Live s) (input : List UInt8) :
    ∃ e, start heap closeThrows s input = some e ∧
      Follows closeThrows s.posts e (decode input).1 (decode input).2 := by
  obtain ⟨e, hrun, hf⟩ := @iterate_refines heap closeThrows _ s input h (Nat.lt_succ_self _)
  refine ⟨e, ?_, hf⟩
  unfold start
  rw [hrun]

theorem new_live (init : Nat → UInt8) :
    ∃ s, Session.new init = .ok s ∧ Live s ∧ s.posted = [] := by
  obtain ⟨n, hn, hhead⟩ := @head_new init
  unfold Session.new
  rw [hn]
  exact ⟨_, rfl, ⟨hhead, rfl, rfl⟩, rfl⟩

/-! ## Decoding what `SendNode` encoded -/

/-- A coroutine that reads on is suspended in an `async_read`. -/
theorem exit_reading {e : Exit} (h : e.outcome = .reading) : ∃ t, e = .reading t := by
  cases e with
  | reading t => exact ⟨t, rfl⟩
  | ended t =>
    exfalso
    change (if t.cleared then Outcome.cleared else .stranded) = .reading at h
    split_ifs at h
  | undefined t => cases h

/-- **When `Start` undoes `SendNode`**: exactly when no message of the list has an empty payload. -/
theorem start_roundtrip_iff (init : Nat → UInt8) (heap heap' : Nat → Nat → UInt8)
    (closeThrows : Bool) (fs : List Frame) :
    ∃ bytes s, sendNodes heap' fs = .ok bytes ∧ Session.new init = .ok s ∧
      ((∃ t, start heap closeThrows s bytes = some (.reading t) ∧
          t.posted.map (fun n => (n.msgId, n.data.take (sizeT n.totalLen.toInt)))
            = fs.map (fun f => (f.id, f.payload))) ↔
        ∀ f ∈ fs, f.payload ≠ []) := by
  obtain ⟨s, hs, hlive, hnone⟩ := new_live init
  refine ⟨_, s, sendNodes_eq heap' fs, hs, ?_⟩
  obtain ⟨e, hrun, hf⟩ := @start_refines heap closeThrows s hlive (fs.flatMap Frame.bytes)
  have hdec : decode (fs.flatMap Frame.bytes) = (.header [], fs.map Frame.post) := feed_frames fs
  have hall : (fs.map Frame.post).all solid = true ↔ ∀ f ∈ fs, f.payload ≠ [] := by
    simp [solid, Frame.post]
  have hposts := hf.posts
  have hout := hf.outcome
  rw [hdec, show s.posts = [] by unfold Session.posts; rw [hnone]; rfl, List.nil_append] at hposts
  rw [hdec] at hout
  rw [hrun, ← hall]
  constructor
  · rintro ⟨t, ht, -⟩
    obtain rfl := Option.some.inj ht
    by_contra hsolid
    rw [if_neg hsolid] at hout
    cases hout
  · intro hsolid
    rw [if_pos hsolid] at hout
    obtain ⟨t, rfl⟩ := exit_reading hout
    refine ⟨t, rfl, ?_⟩
    rw [List.takeWhile_eq_self_iff.mpr fun p hp => List.all_eq_true.mp hsolid p hp] at hposts
    exact hposts

/-- The frame of the message `(1001, "")` is taken for a closed connection. -/
theorem start_empty_payload : ¬ ∀ (init : Nat → UInt8) (heap heap' : Nat → Nat → UInt8)
    (closeThrows : Bool) (fs : List Frame), ∃ bytes s t, sendNodes heap' fs = .ok bytes ∧
      Session.new init = .ok s ∧ start heap closeThrows s bytes = some (.reading t) ∧
      t.posted.map (fun n => (n.msgId, n.data.take (sizeT n.totalLen.toInt)))
        = fs.map (fun f => (f.id, f.payload)) := by
  intro h
  obtain ⟨bytes, s, t, hbytes, hs, hrun, -⟩ :=
    h (fun _ => 0) (fun _ _ => 0) (fun _ _ => 0) false [⟨1001, [], by decide, by decide⟩]
  obtain rfl : [3, 233, 0, 0] = bytes := Except.ok.inj hbytes
  obtain ⟨s', hs', hlive, -⟩ := new_live fun _ => 0
  obtain rfl := Except.ok.inj (hs.symm.trans hs')
  obtain ⟨e, hrun', hf⟩ := @start_refines (fun _ _ => 0) false s hlive [3, 233, 0, 0]
  obtain rfl := Option.some.inj (hrun.symm.trans hrun')
  have hout : Outcome.reading = .cleared := hf.outcome
  cases hout

end AsioLearn.BoostCoServer
