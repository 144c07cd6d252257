import AsioLearn.LogicServer.HandleRead

/-!
# `HandleRead` is the decoder that forgets incomplete headers

`HandleRead`, run over the reads of a connection, computes `decodeReads`: the wire decoder, with
an incomplete header dropped at the end of every read. `Rel` ties the members of a session to the
decoder's state; `AtHead` is the loop invariant, `Live` what holds between two reads.

Results:
* one lemma for each way through the loop body (`readHead_*`, `readBody_*`), each giving the next
  loop head or the exit;
* `handleRead_refines`: one read. The loop ends, and its exit is the one the decoder's state calls
  for (`DecState.outcome`): a stop at a rejected header clears the session, a stop at a negative
  length is an exception or, at `-1`, undefined behaviour.
* `runReads_refines`: any number of reads, delivered as they are armed.
-/

namespace AsioLearn.LogicServer

open AsioLearn.Cpp AsioLearn.Wire AsioLearn.Lib AsioLearn.Lib.Transducer

/-! ## What a stop means to this server -/

/-- The outcome of a header the decoder stops at. -/
def stopOutcome (h : Header) : Outcome :=
  if ¬ h.IdOk ∨ maxLength < h.len.toInt then .cleared
  else if h.len.toInt = -1 then .undefined
  else .stranded

/-- Undefined behaviour comes from a length of `-1`. -/
theorem stopOutcome_undefined_iff {h : Header} :
    stopOutcome h = .undefined ↔ h.IdOk ∧ h.len.toInt = -1 := by
  unfold stopOutcome
  constructor
  · intro hout
    split_ifs at hout with h1 h2
    exact ⟨not_not.mp (not_or.mp h1).1, h2⟩
  · rintro ⟨hid, hlen⟩
    have hok : ¬ (¬ h.IdOk ∨ (maxLength : Int) < h.len.toInt) := by
      rintro (hc | hc)
      · exact hc hid
      · omega
    rw [if_neg hok, if_pos hlen]

/-- The outcome of a decoder state. -/
def decOutcome : DecState → Outcome
  | .stopped h => stopOutcome h
  | _ => .reading

/-! ## The relation between a session and the decoder -/

/-- The message node holds `acc`, of a payload of `len` bytes, with the terminator's byte left. -/
structure Filling (n : RecvNode) (id : Int16) (len : Nat) (acc : List UInt8) : Prop where
  msgId : n.msgId = id
  total : n.totalLen.toInt = len
  cur : n.curLen.toInt = acc.length
  data : ∃ junk, n.data = acc ++ junk ∧ acc.length + junk.length = len + 1
  more : acc.length < len
  bound : len ≤ maxLength

/-- The members agree with the decoder's state. -/
def Rel (s : Session) : DecState → Prop
  | .header acc => acc = [] ∧ s.bHeadParse = false
  | .payload id len acc =>
    s.bHeadParse = true ∧ ∃ n, s.recvMsgNode = some n ∧ Filling n id len acc
  | .stopped _ => False

/-- Between two reads: one read is armed, and the session is in the server's map. -/
structure Live (s : Session) (d : DecState) : Prop where
  head : HeadNode s.recvHeadNode
  rel : Rel s d
  data : s.data = List.replicate maxLength 0
  armed : s.armed = 1
  cleared : s.cleared = false

/-- The header node has been cleared. -/
def HeadClear (s : Session) : Prop :=
  s.recvHeadNode.curLen = 0 ∧
    s.recvHeadNode.data.take headTotalLen = List.replicate headTotalLen 0

/-- At a loop head: `pre` of the read is consumed, `ys` is left, `pad` is the rest of `_data`. -/
structure AtHead (pre ys pad : List UInt8) (c : Cursor) (d : DecState) : Prop where
  data : c.session.data = pre ++ ys ++ pad
  size : pre.length + ys.length + pad.length = maxLength
  copyLen : c.copyLen = pre.length
  left : c.bytesTransferred = ys.length
  head : HeadNode c.session.recvHeadNode
  rel : Rel c.session d
  armed : c.session.armed = 0
  cleared : c.session.cleared = false

/-- The exit a decoder state calls for, with the messages posted by then. -/
structure Leaves (e : Exit) (d : DecState) (ps : List Post) : Prop where
  outcome : e.outcome = decOutcome d
  posts : e.posts = ps
  live : (∀ h, d ≠ .stopped h) → ∃ s, e = .returned s ∧ Live s d.forget
  clear : d = .header [] → HeadClear e.session
  dead : (∃ h, d = .stopped h) → e.session.armed = 0

/-! ## The statements of the body -/

@[simp]
theorem attempt_ok {α : Type} (s : Session) (a : α) : s.attempt (.ok a) = .ok a := rfl

theorem asyncReadSome_ok {s : Session} (h : s.data.length = maxLength) :
    s.asyncReadSome =
      .ok { s with data := List.replicate maxLength 0, armed := s.armed + 1 } := by
  unfold Session.asyncReadSome
  rw [memset_ok h.ge, List.drop_of_length_le h.le, List.append_nil]
  rfl

/-- A copy of the next `n` bytes of the read to the end of what a node already holds. -/
theorem copy_read {pre ys pad dst junk : List UInt8} {n : Nat} (hn : n ≤ ys.length)
    (hj : n ≤ junk.length) :
    memcpy (dst ++ junk) dst.length (pre ++ ys ++ pad) pre.length n =
      .ok (dst ++ ys.take n ++ junk.drop n) := by
  rw [memcpy_append hj (by simp only [List.length_append]; omega), List.append_assoc pre,
    List.drop_left, List.take_append_of_le_length hn]

/-- The copy that completes a payload of `len` bytes, and the terminator after it. -/
theorem copy_last {pre ys pad acc junk : List UInt8} {len : Nat}
    (hjunk : acc.length + junk.length = len + 1) (hacc : acc.length ≤ len)
    (hle : len - acc.length ≤ ys.length) :
    ∃ mem data, memcpy (acc ++ junk) acc.length (pre ++ ys ++ pad) pre.length (len - acc.length)
        = .ok mem ∧ store mem len 0 = .ok data ∧
      data.take len = acc ++ ys.take (len - acc.length) := by
  have hlen : (acc ++ ys.take (len - acc.length)).length = len := by
    rw [List.length_append, List.length_take]
    omega
  refine ⟨_, _, copy_read hle (by omega), store_ok (Int.natCast_nonneg len) ?_, ?_⟩
  · rw [List.length_append, hlen, List.length_drop]
    omega
  · rw [Int.toNat_natCast, List.take_set_of_le le_rfl, List.take_append_of_le_length hlen.ge,
      List.take_of_length_le hlen.le]

/-- **The end of a message.** The read is used up and the next one is armed, or the loop goes on
at a header. -/
theorem finish_spec {pre ys pad : List UInt8} {s : Session} {node : RecvNode}
    (hdata : s.data = pre ++ ys ++ pad) (hsize : pre.length + ys.length + pad.length = maxLength)
    (hhead : HeadNode s.recvHeadNode) (harmed : s.armed = 0) (hcl : s.cleared = false) :
    (ys = [] → ∃ e, finish s node pre.length ys.length = .error e ∧
      Leaves e (.header []) (s.posts ++ [view node])) ∧
    (ys ≠ [] → ∃ c, finish s node pre.length ys.length = .ok c ∧
      AtHead pre ys pad c (.header []) ∧ c.session.posts = s.posts ++ [view node]) := by
  obtain ⟨data, hclear, hlen, hzero⟩ := clear_head hhead
  have hdl : s.data.length = maxLength := by
    rw [hdata, List.length_append, List.length_append]; exact hsize
  have hposts : (s.posted ++ [node]).map view = s.posts ++ [view node] := by
    rw [List.map_append]; rfl
  unfold finish
  simp only [bind, Except.bind, hclear, attempt_ok]
  constructor
  · rintro rfl
    rw [if_pos (show ([] : List UInt8).length ≤ 0 from Nat.le_refl _)]
    simp only [attempt_ok, asyncReadSome_ok, hdl, harmed]
    refine ⟨_, rfl, ⟨?_, hposts, fun _ => ⟨_, rfl, ⟨⟨rfl, rfl, hlen⟩, ⟨rfl, rfl⟩, rfl, rfl, hcl⟩⟩,
      fun _ => ⟨rfl, hzero⟩, fun ⟨_, h⟩ => by cases h⟩⟩
    simp [Exit.outcome, hcl, decOutcome]
  · intro hne
    have hpos : ¬ ys.length ≤ 0 := by
      have := List.length_pos_iff.mpr hne
      omega
    rw [if_neg hpos]
    exact ⟨_, rfl, ⟨hdata, hsize, rfl, rfl, ⟨rfl, rfl, hlen⟩, ⟨rfl, rfl⟩, harmed, hcl⟩, hposts⟩

/-! ## One pass of the loop -/

/-- Not even a header: the bytes are dropped. -/
theorem readHead_short {pre ys pad : List UInt8} {c : Cursor}
    (h : AtHead pre ys pad c (.header [])) (hne : ys ≠ []) (hlt : ys.length < headTotalLen) :
    ∃ e, readHead c = .error e ∧ Leaves e (.header ys) c.session.posts := by
  obtain ⟨s, copyLen, bytes⟩ := c
  obtain ⟨hdata, hsize, rfl, rfl, hhead, ⟨-, hrel⟩, harmed, hcl⟩ := h
  dsimp only at hdata hhead hrel harmed hcl ⊢
  have hdl : s.data.length = maxLength := by
    rw [hdata, List.length_append, List.length_append]; exact hsize
  have hcur : s.recvHeadNode.curLen.toInt = 0 := by rw [hhead.cur]; rfl
  have hsum : sizeAdd ys.length (sizeT 0) = ys.length := by
    have : headTotalLen = 4 := rfl
    rw [show sizeT 0 = 0 from rfl, sizeAdd_eq (by omega), Nat.add_zero]
  have hcopy := @copy_read pre ys pad [] s.recvHeadNode.data ys.length le_rfl
    (by rw [hhead.length]; exact Nat.le_of_lt (Nat.lt_succ_of_lt hlt))
  rw [← hdata, List.nil_append, List.nil_append, List.take_length, List.length_nil,
    Nat.cast_zero] at hcopy
  unfold readHead
  simp only [bind, Except.bind, hcur, hsum]
  rw [if_pos hlt, hcopy]
  simp only [attempt_ok, asyncReadSome_ok, hdl]
  refine ⟨_, rfl, ⟨?_, rfl, fun _ => ⟨_, rfl, ⟨⟨hhead.total, hhead.cur, ?_⟩, ⟨rfl, hrel⟩, rfl, ?_,
    hcl⟩⟩, fun hd => absurd (DecState.header.inj hd) hne, fun ⟨_, hd⟩ => by cases hd⟩⟩
  · simp [Exit.outcome, hcl, decOutcome]
  · have := hhead.length
    have : headTotalLen = 4 := rfl
    simp only [List.length_append, List.length_drop]
    omega
  · simp only [harmed]

/-- A header: rejected, or the message is opened with what is left of the read. -/
theorem readHead_header {pre zs pad : List UInt8} {b₀ b₁ b₂ b₃ : UInt8} {c : Cursor}
    (h : AtHead pre (b₀ :: b₁ :: b₂ :: b₃ :: zs) pad c (.header [])) :
    ∃ s, AtHead (pre ++ [b₀, b₁, b₂, b₃]) zs pad ⟨s, (pre.length + 4 : Nat), zs.length⟩
        (.header []) ∧ s.posts = c.session.posts ∧
      readHead c =
        if maxLength < (networkToHostShort b₀ b₁).toInt
            ∨ maxLength < (networkToHostShort b₂ b₃).toInt then
          .error (.returned s.clearSession)
        else
          openMsg s (networkToHostShort b₀ b₁) (networkToHostShort b₂ b₃) (pre.length + 4 : Nat)
            zs.length := by
  obtain ⟨s, copyLen, bytes⟩ := c
  obtain ⟨hdata, hsize, rfl, rfl, hhead, ⟨-, hrel⟩, harmed, hcl⟩ := h
  dsimp only at hdata hhead hrel harmed hcl ⊢
  simp only [List.length_cons] at hsize
  have hmax : maxLength = 2048 := rfl
  have hlen := hhead.length
  have hcur : s.recvHeadNode.curLen.toInt = 0 := by rw [hhead.cur]; rfl
  have hsum : ¬ sizeAdd (b₀ :: b₁ :: b₂ :: b₃ :: zs).length (sizeT 0) < headTotalLen := by
    have : headTotalLen = 4 := rfl
    rw [show sizeT 0 = 0 from rfl, sizeAdd_eq (by simp only [List.length_cons]; omega)]
    simp only [List.length_cons]
    omega
  have hleft : sizeSub (b₀ :: b₁ :: b₂ :: b₃ :: zs).length (sizeT ((headTotalLen : Int) - 0))
      = zs.length := by
    rw [show sizeT ((headTotalLen : Int) - 0) = 4 from rfl,
      sizeSub_eq (by simp) (by simp only [List.length_cons]; omega)]
    simp
  have hcopy := @copy_read pre (b₀ :: b₁ :: b₂ :: b₃ :: zs) pad [] s.recvHeadNode.data 4 (by simp)
    (by omega)
  rw [← hdata, List.nil_append, List.length_nil, Nat.cast_zero] at hcopy
  set data := [b₀, b₁, b₂, b₃] ++ s.recvHeadNode.data.drop 4 with hd
  refine ⟨{ s with recvHeadNode := { s.recvHeadNode with data } }, ⟨?_, ?_, ?_, rfl,
    ⟨hhead.total, hhead.cur, ?_⟩, ⟨rfl, hrel⟩, harmed, hcl⟩, rfl, ?_⟩
  · dsimp only
    rw [hdata]
    simp
  · simp only [List.length_append, List.length_cons, List.length_nil]
    omega
  · simp
  · simp only [hd, List.length_append, List.length_cons, List.length_nil, List.length_drop]
    omega
  · have hcopy' : memcpy s.recvHeadNode.data 0 s.data (pre.length : Int)
        (sizeT ((headTotalLen : Int) - 0)) = .ok data := hcopy
    have hid : loadShort data 0 = .ok (networkToHostShort b₀ b₁) := rfl
    have hln : loadShort data headIdLen = .ok (networkToHostShort b₂ b₃) := rfl
    unfold readHead
    simp only [bind, Except.bind, hcur]
    rw [if_neg hsum, hcopy', hleft]
    simp only [attempt_ok, hid, hln]
    by_cases hi : (maxLength : Int) < (networkToHostShort b₀ b₁).toInt
    · rw [if_pos hi, if_pos (Or.inl hi)]
      rfl
    · rw [if_neg hi]
      by_cases hl : (maxLength : Int) < (networkToHostShort b₂ b₃).toInt
      · rw [if_pos hl, if_pos (Or.inr hl)]
        rfl
      · rw [if_neg hl, if_neg (not_or.mpr ⟨hi, hl⟩)]
        rfl

/-- A header over the bounds clears the session. -/
theorem leaves_cleared {s : Session} {h : Header} (harmed : s.armed = 0)
    (hbad : ¬ h.IdOk ∨ maxLength < h.len.toInt) :
    Leaves (.returned s.clearSession) (.stopped h) s.posts where
  outcome := by
    have hout : stopOutcome h = .cleared := if_pos hbad
    simp [Exit.outcome, Session.clearSession, decOutcome, hout]
  posts := rfl
  live hns := absurd rfl (hns h)
  clear hd := by cases hd
  dead _ := harmed

/-- A negative length: the allocation throws, or the terminator is written outside the block. -/
theorem openMsg_negative {s : Session} {h : Header} {copyLen : Int} {bytes : Nat}
    (harmed : s.armed = 0) (hcl : s.cleared = false) (hid : h.IdOk) (hneg : h.len.toInt < 0) :
    ∃ e, openMsg s h.id h.len copyLen bytes = .error e ∧ Leaves e (.stopped h) s.posts := by
  have hok : ¬ (¬ h.IdOk ∨ (maxLength : Int) < h.len.toInt) := by
    rintro (hc | hc)
    · exact hc hid
    · omega
  by_cases h1 : h.len.toInt = -1
  · have hout : stopOutcome h = .undefined := (if_neg hok).trans (if_pos h1)
    unfold openMsg
    rw [RecvNode.new_error (MsgNode.new_minus_one h1)]
    exact ⟨.undefined s, rfl, hout.symm, rfl, fun hns => absurd rfl (hns h),
      fun hd => (by cases hd), fun _ => harmed⟩
  · have hout : stopOutcome h = .stranded := (if_neg hok).trans (if_neg h1)
    unfold openMsg
    rw [RecvNode.new_error (MsgNode.new_throws (by omega))]
    refine ⟨.caught s, rfl, ?_, rfl, fun hns => absurd rfl (hns h), fun hd => (by cases hd),
      fun _ => harmed⟩
    simp [Exit.outcome, hcl, harmed, decOutcome, hout]

/-- A payload that goes on past the read. -/
theorem openMsg_short {pre zs pad : List UInt8} {s : Session} {h : Header} {len : Nat}
    (hat : AtHead pre zs pad ⟨s, pre.length, zs.length⟩ (.header []))
    (hlen : h.len.toInt = len) (hle : len ≤ maxLength) (hlt : zs.length < len) :
    ∃ e, openMsg s h.id h.len pre.length zs.length = .error e ∧
      Leaves e (.payload h.id len zs) s.posts := by
  obtain ⟨hdata, hsize, -, -, hhead, -, harmed, hcl⟩ := hat
  dsimp only at hdata hhead harmed hcl
  have hmax : maxLength = 2048 := rfl
  obtain ⟨n, hnew, hcur, htot, hmid, hnl⟩ := @RecvNode.new_ok zeros h.len h.id (by omega)
  have hdl : s.data.length = maxLength := by
    rw [hdata, List.length_append, List.length_append]; exact hsize
  have hcur0 : n.curLen.toInt = 0 := by rw [hcur]; rfl
  have hsize' : sizeT h.len.toInt = len := by rw [sizeT_short (by omega)]; omega
  have hsum : sizeAdd (sizeT 0) zs.length = zs.length := by
    rw [show sizeT 0 = 0 from rfl, sizeAdd_eq (by omega), Nat.zero_add]
  have hcopy := @copy_read pre zs pad [] n.data zs.length le_rfl (by omega)
  rw [← hdata, List.nil_append, List.nil_append, List.take_length, List.length_nil,
    Nat.cast_zero] at hcopy
  unfold openMsg
  simp only [bind, Except.bind, hnew, attempt_ok, hcur0, hsum, hsize']
  rw [if_pos hlt, hcopy]
  simp only [attempt_ok, asyncReadSome_ok, hdl]
  refine ⟨_, rfl, ⟨?_, rfl, fun _ => ⟨_, rfl, ⟨hhead, ⟨rfl, _, rfl, ?_⟩, rfl, ?_, hcl⟩⟩,
    fun hd => (by cases hd), fun ⟨_, hd⟩ => (by cases hd)⟩⟩
  · simp [Exit.outcome, hcl, decOutcome]
  · refine ⟨hmid, ?_, short_toInt (by omega) (by omega), ⟨_, rfl, ?_⟩, hlt, by omega⟩
    · rw [htot]; exact hlen
    · rw [List.length_drop]; omega
  · simp only [harmed]

/-- A payload that ends in the read it began in. -/
theorem openMsg_full {pre zs pad : List UInt8} {s : Session} {h : Header} {len : Nat}
    (hat : AtHead pre zs pad ⟨s, pre.length, zs.length⟩ (.header []))
    (hlen : h.len.toInt = len) (hle : len ≤ zs.length) :
    (zs.drop len = [] → ∃ e, openMsg s h.id h.len pre.length zs.length = .error e ∧
      Leaves e (.header []) (s.posts ++ [(h.id, zs.take len)])) ∧
    (zs.drop len ≠ [] → ∃ c, openMsg s h.id h.len pre.length zs.length = .ok c ∧
      AtHead (pre ++ zs.take len) (zs.drop len) pad c (.header []) ∧
        c.session.posts = s.posts ++ [(h.id, zs.take len)]) := by
  obtain ⟨hdata, hsize, -, -, hhead, -, harmed, hcl⟩ := hat
  dsimp only at hdata hhead harmed hcl
  have hmax : maxLength = 2048 := rfl
  obtain ⟨n, hnew, hcur, htot, hmid, hnl⟩ := @RecvNode.new_ok zeros h.len h.id (by omega)
  have hcur0 : n.curLen.toInt = 0 := by rw [hcur]; rfl
  have hsize' : sizeT h.len.toInt = len := by rw [sizeT_short (by omega)]; omega
  have hshort : short (0 + h.len.toInt) = h.len := by rw [Int.zero_add, short_of_toInt]
  obtain ⟨mem, data, hcopy, hstore, hpay⟩ := @copy_last pre zs pad [] n.data len (by
    rw [hnl, List.length_nil]; omega) (Nat.zero_le _) hle
  rw [← hdata, List.nil_append, List.length_nil, Nat.sub_zero, Nat.cast_zero] at hcopy
  rw [List.nil_append, List.length_nil, Nat.sub_zero] at hpay
  rw [← hlen] at hstore
  have hsub : sizeSub zs.length len = (zs.drop len).length := by
    rw [sizeSub_eq hle (by omega), List.length_drop]
  have hpre : (pre.length : Int) + h.len.toInt = ((pre ++ zs.take len).length : Nat) := by
    rw [List.length_append, List.length_take, Nat.min_eq_left hle]
    omega
  have hview : view ⟨⟨data, h.len, n.totalLen⟩, n.msgId⟩ = (h.id, zs.take len) := by
    unfold view MsgNode.received
    simp only [hmid, hsize', hpay]
  unfold openMsg
  simp only [bind, Except.bind, hnew, attempt_ok, hcur0, hsize']
  rw [if_neg (by omega), hcopy]
  simp only [attempt_ok, hshort, hstore, hsub, hpre]
  have hspec := @finish_spec (pre ++ zs.take len) (zs.drop len) pad
    { s with recvMsgNode := some ⟨⟨data, h.len, n.totalLen⟩, n.msgId⟩ }
    ⟨⟨data, h.len, n.totalLen⟩, n.msgId⟩ (by
      rw [List.append_assoc pre, List.take_append_drop]; exact hdata) (by
      rw [← hsize]
      simp only [List.length_append, List.length_take, List.length_drop]; omega) hhead harmed hcl
  rw [hview] at hspec
  exact hspec

/-- The payload of an open message goes on past the read. -/
theorem readBody_short {pre ys pad acc : List UInt8} {c : Cursor} {id : Int16} {len : Nat}
    (hat : AtHead pre ys pad c (.payload id len acc)) (hlt : acc.length + ys.length < len) :
    ∃ e, readBody c = .error e ∧
      Leaves e (.payload id len (acc ++ ys)) c.session.posts := by
  obtain ⟨s, copyLen, bytes⟩ := c
  obtain ⟨hdata, hsize, rfl, rfl, hhead, ⟨hparse, n, hnode, hpart⟩, harmed, hcl⟩ := hat
  dsimp only at hdata hhead hparse hnode harmed hcl ⊢
  obtain ⟨hmid, htot, hcur, ⟨junk, hmem, hjunk⟩, hmore, hbound⟩ := hpart
  have hmax : maxLength = 2048 := rfl
  have hdl : s.data.length = maxLength := by
    rw [hdata, List.length_append, List.length_append]; exact hsize
  have hremain : sizeT ((len : Int) - acc.length) = len - acc.length := by
    rw [sizeT_of_nonneg (by omega) (by omega)]; omega
  have hsum : sizeAdd (sizeT (acc.length : Int)) ys.length = acc.length + ys.length := by
    rw [sizeT_of_nonneg (by omega) (by omega), Int.toNat_natCast, sizeAdd_eq (by omega)]
  have hcopy := @copy_read pre ys pad acc junk ys.length le_rfl (by omega)
  rw [← hdata, List.take_length, ← hmem] at hcopy
  unfold readBody
  simp only [hnode, htot, hcur]
  rw [if_pos (by omega)]
  simp only [bind, Except.bind, hcopy, hsum, attempt_ok, asyncReadSome_ok, hdl]
  refine ⟨_, rfl, ⟨?_, rfl, fun _ => ⟨_, rfl, ⟨hhead, ⟨hparse, _, rfl, ?_⟩, rfl, ?_, hcl⟩⟩,
    fun hd => (by cases hd), fun ⟨_, hd⟩ => (by cases hd)⟩⟩
  · simp [Exit.outcome, hcl, decOutcome]
  · refine ⟨hmid, htot, ?_, ⟨_, rfl, ?_⟩, ?_, hbound⟩
    · rw [List.length_append]
      exact short_toInt (by omega) (by omega)
    · simp only [List.length_append, List.length_drop]; omega
    · rw [List.length_append]; omega
  · simp only [harmed]

/-- The payload of an open message ends in the read. -/
theorem readBody_full {pre ys pad acc : List UInt8} {c : Cursor} {id : Int16} {len : Nat}
    (hat : AtHead pre ys pad c (.payload id len acc)) (hle : len ≤ acc.length + ys.length) :
    (ys.drop (len - acc.length) = [] → ∃ e, readBody c = .error e ∧
      Leaves e (.header []) (c.session.posts ++ [(id, acc ++ ys.take (len - acc.length))])) ∧
    (ys.drop (len - acc.length) ≠ [] → ∃ c', readBody c = .ok c' ∧
      AtHead (pre ++ ys.take (len - acc.length)) (ys.drop (len - acc.length)) pad c' (.header []) ∧
        c'.session.posts = c.session.posts ++ [(id, acc ++ ys.take (len - acc.length))]) := by
  obtain ⟨s, copyLen, bytes⟩ := c
  obtain ⟨hdata, hsize, rfl, rfl, hhead, ⟨hparse, n, hnode, hpart⟩, harmed, hcl⟩ := hat
  dsimp only at hdata hhead hparse hnode harmed hcl ⊢
  obtain ⟨hmid, htot, hcur, ⟨junk, hmem, hjunk⟩, hmore, hbound⟩ := hpart
  have hmax : maxLength = 2048 := rfl
  have hremain : sizeT ((len : Int) - acc.length) = len - acc.length := by
    rw [sizeT_of_nonneg (by omega) (by omega)]; omega
  have hshort : short ((acc.length : Int) + ((len : Int) - acc.length)) = n.totalLen := by
    rw [← htot, ← short_of_toInt n.totalLen]
    congr 1
    rw [short_of_toInt]
    omega
  have hk : (ys.take (len - acc.length)).length = len - acc.length := by
    rw [List.length_take]; omega
  have hsub : sizeSub ys.length (len - acc.length) = (ys.drop (len - acc.length)).length := by
    rw [sizeSub_eq (by omega) (by omega), List.length_drop]
  have hpre : (pre.length : Int) + ((len : Int) - acc.length)
      = ((pre ++ ys.take (len - acc.length)).length : Nat) := by
    rw [List.length_append, hk]
    omega
  obtain ⟨mem, data, hcopy, hstore, hpay⟩ := @copy_last pre ys pad acc junk len hjunk hmore.le
    (by omega)
  rw [← hdata, ← hmem] at hcopy
  have hview : view ⟨⟨data, n.totalLen, n.totalLen⟩, n.msgId⟩
      = (id, acc ++ ys.take (len - acc.length)) := by
    unfold view MsgNode.received
    rw [htot, sizeT_of_nonneg (by omega) (by omega), Int.toNat_natCast]
    exact Prod.ext hmid hpay
  unfold readBody
  simp only [hnode, htot, hcur, hremain]
  rw [if_neg (by omega)]
  simp only [bind, Except.bind, hcopy, attempt_ok, hstore, hsub, hpre, hshort]
  have hspec := @finish_spec (pre ++ ys.take (len - acc.length)) (ys.drop (len - acc.length)) pad
    { s with recvMsgNode := some ⟨⟨data, n.totalLen, n.totalLen⟩, n.msgId⟩ }
    ⟨⟨data, n.totalLen, n.totalLen⟩, n.msgId⟩ (by
      rw [List.append_assoc pre, List.take_append_drop]; exact hdata) (by
      rw [← hsize]
      simp only [List.length_append, hk, List.length_drop]; omega) hhead harmed hcl
  rw [hview] at hspec
  exact hspec

/-! ## The loop -/

/-- The session is at a loop head with `ys` of the read left, and the whole read takes the decoder
to `D` with `ps` posted in all. -/
def LoopInv (xs pad : List UInt8) (D : DecState) (ps : List Post) (c : Cursor) : Prop :=
  ∃ pre ys d, AtHead pre ys pad c d ∧ ys ≠ [] ∧ pre ++ ys = xs ∧
    (feed DecState.step d ys).1 = D ∧ c.session.posts ++ (feed DecState.step d ys).2 = ps

/-- What a pass of the loop may do: leave with what the decoder makes of the whole read, or go on
with less than `n` bytes of it. -/
def PassSpec (xs pad : List UInt8) (D : DecState) (ps : List Post) (n : Nat)
    (r : Except Exit Cursor) : Prop :=
  (∃ e, r = .error e ∧ Leaves e D ps) ∨
    (∃ c, r = .ok c ∧ LoopInv xs pad D ps c ∧ c.bytesTransferred < n)

/-- A complete message: the loop is left with the read used up, or goes on behind it. -/
theorem pass_message {pre ys pad xs : List UInt8} {ps : List Post} {s : Session} {n : Nat}
    {r : Except Exit Cursor} {p : Post}
    (hdone : ys = [] → ∃ e, r = .error e ∧ Leaves e (.header []) (s.posts ++ [p]))
    (hmore : ys ≠ [] → ∃ c, r = .ok c ∧ AtHead pre ys pad c (.header []) ∧
      c.session.posts = s.posts ++ [p])
    (hxs : pre ++ ys = xs) (hn : ys.length < n)
    (hps : s.posts ++ p :: (feed DecState.step (.header []) ys).2 = ps) :
    PassSpec xs pad (feed DecState.step (.header []) ys).1 ps n r := by
  by_cases hy : ys = []
  · subst hy
    obtain ⟨e, hr, hl⟩ := hdone rfl
    exact Or.inl ⟨e, hr, by rw [← hps]; exact hl⟩
  · obtain ⟨c, hr, hat, hposts⟩ := hmore hy
    refine Or.inr ⟨c, hr, ⟨pre, ys, .header [], hat, hy, hxs, rfl, ?_⟩, by rw [hat.left]; exact hn⟩
    rw [hposts, List.append_assoc, List.singleton_append, hps]

/-- A pass with the payload of a message open. -/
theorem readBody_spec {pre ys pad acc : List UInt8} {c : Cursor} {id : Int16} {len : Nat}
    (hat : AtHead pre ys pad c (.payload id len acc)) :
    PassSpec (pre ++ ys) pad (feed DecState.step (.payload id len acc) ys).1
      (c.session.posts ++ (feed DecState.step (.payload id len acc) ys).2) c.bytesTransferred
      (readBody c) := by
  obtain ⟨n, -, hpart⟩ := hat.rel.2
  have hmore := hpart.more
  by_cases hlt : acc.length + ys.length < len
  · rw [feed_payload_short hlt, List.append_nil]
    exact Or.inl (readBody_short hat hlt)
  · rw [feed_payload_full hmore (by omega)]
    obtain ⟨hdone, hgo⟩ := readBody_full hat (by omega)
    refine pass_message hdone hgo (by rw [List.append_assoc, List.take_append_drop]) ?_ rfl
    rw [hat.left, List.length_drop]
    omega

/-- A pass behind a header within the bounds. -/
theorem openMsg_spec {pre zs pad : List UInt8} {s : Session} {h : Header} {n : Nat}
    (hat : AtHead pre zs pad ⟨s, pre.length, zs.length⟩ (.header [])) (hid : h.IdOk)
    (hle : h.len.toInt ≤ maxLength) (hn : zs.length < n) :
    PassSpec (pre ++ zs) pad (feed DecState.step h.enter.1 zs).1
      (s.posts ++ (h.enter.2 ++ (feed DecState.step h.enter.1 zs).2)) n
      (openMsg s h.id h.len pre.length zs.length) := by
  by_cases hneg : h.len.toInt < 0
  · rw [enter_stopped (fun ha => absurd ha.2.1 (not_le.mpr hneg)), feed_stopped, List.append_nil,
      List.append_nil]
    exact Or.inl (openMsg_negative hat.armed hat.cleared hid hneg)
  · obtain ⟨len, hlen⟩ := Int.eq_ofNat_of_zero_le (not_lt.mp hneg)
    have ha : h.Accepted := ⟨hid, not_lt.mp hneg, hle⟩
    have hlen' : h.len.toInt.toNat = len := by omega
    by_cases hpart : zs.length < len
    · have hfeed : feed DecState.step (.payload h.id len []) zs = (.payload h.id len zs, []) :=
        feed_payload_short (by simpa using hpart)
      rw [enter_accepted ha (by omega), hlen', hfeed, List.append_nil, List.append_nil]
      exact Or.inl (openMsg_short hat hlen (by omega) hpart)
    · have hfeed : (feed DecState.step h.enter.1 zs).1
            = (feed DecState.step (.header []) (zs.drop len)).1 ∧
          h.enter.2 ++ (feed DecState.step h.enter.1 zs).2 = (h.id, zs.take len) ::
            (feed DecState.step (.header []) (zs.drop len)).2 := by
        by_cases h0 : len = 0
        · subst h0
          rw [enter_empty ha hlen]
          exact ⟨rfl, rfl⟩
        · rw [enter_accepted ha (by omega), hlen', feed_payload_full (by simp; omega)
            (by simp; omega)]
          exact ⟨rfl, rfl⟩
      rw [hfeed.1, hfeed.2]
      obtain ⟨hdone, hgo⟩ := openMsg_full hat hlen (not_lt.mp hpart)
      refine pass_message hdone hgo (by rw [List.append_assoc, List.take_append_drop]) ?_ rfl
      rw [List.length_drop]
      omega

/-- A pass at a header. -/
theorem readHead_spec {pre ys pad : List UInt8} {c : Cursor}
    (hat : AtHead pre ys pad c (.header [])) (hne : ys ≠ []) :
    PassSpec (pre ++ ys) pad (feed DecState.step (.header []) ys).1
      (c.session.posts ++ (feed DecState.step (.header []) ys).2) c.bytesTransferred
      (readHead c) := by
  by_cases hlt : ys.length < headTotalLen
  · rw [feed_header_short (by simpa using hlt), List.append_nil, List.nil_append]
    exact Or.inl (readHead_short hat hne hlt)
  · obtain ⟨b₀, b₁, b₂, b₃, zs, rfl⟩ := exists_four hlt
    obtain ⟨s, hat', hposts, hread⟩ := readHead_header hat
    have hxs : pre ++ b₀ :: b₁ :: b₂ :: b₃ :: zs = (pre ++ [b₀, b₁, b₂, b₃]) ++ zs := by simp
    rw [show pre.length + 4 = (pre ++ [b₀, b₁, b₂, b₃]).length by simp] at hat' hread
    rw [hread, feed_header, ← hposts, hxs]
    set h := Header.ofBytes b₀ b₁ b₂ b₃
    by_cases hbad : (maxLength : Int) < h.id.toInt ∨ (maxLength : Int) < h.len.toInt
    · have hrej : ¬ h.IdOk ∨ (maxLength : Int) < h.len.toInt :=
        hbad.imp_left fun hc hid => absurd hc (not_lt.mpr hid)
      have hna : ¬ h.Accepted := by
        rintro ⟨hid, -, hle⟩
        rcases hbad with hc | hc
        · exact absurd hc (not_lt.mpr hid)
        · exact absurd hc (not_lt.mpr hle)
      rw [enter_stopped hna, feed_stopped, List.append_nil, List.append_nil]
      exact Or.inl ⟨_, if_pos hbad, leaves_cleared hat'.armed hrej⟩
    · have hopen := not_or.mp hbad
      rw [not_lt, not_lt] at hopen
      have hspec := @openMsg_spec _ zs pad s h c.bytesTransferred hat' hopen.1 hopen.2
        (by rw [hat.left]; simp only [List.length_cons]; omega)
      exact (if_neg hbad) ▸ hspec

/-- **One pass of the loop**: it is left with what the decoder makes of the whole read, or goes on
with less of it. -/
theorem loopBody_spec {xs pad : List UInt8} {D : DecState} {ps : List Post} {c : Cursor}
    (h : LoopInv xs pad D ps c) : PassSpec xs pad D ps c.bytesTransferred (loopBody c) := by
  obtain ⟨pre, ys, d, hat, hne, rfl, rfl, rfl⟩ := h
  unfold loopBody
  cases d with
  | header acc =>
    obtain ⟨rfl, hparse⟩ := hat.rel
    rw [if_neg (by rw [hparse]; exact Bool.false_ne_true)]
    exact readHead_spec hat hne
  | payload id len acc =>
    rw [if_pos hat.rel.1]
    exact readBody_spec hat
  | stopped h => exact hat.rel.elim

/-! ## One read -/

/-- A delivered read is at the first loop head. -/
theorem atHead_deliver {s : Session} {d : DecState} {xs : List UInt8} (h : Live s d)
    (hlen : xs.length ≤ maxLength) :
    AtHead [] xs (List.replicate (maxLength - xs.length) 0) ⟨s.deliver xs, 0, xs.length⟩ d where
  data := by
    have hdrop : s.data.drop xs.length = List.replicate (maxLength - xs.length) 0 := by
      rw [h.data, List.drop_replicate]
    exact congrArg (xs ++ ·) hdrop
  size := by
    rw [List.length_replicate, List.length_nil]
    omega
  copyLen := rfl
  left := rfl
  head := h.head
  rel := by
    have hrel := h.rel
    cases d with
    | header _ => exact hrel
    | payload _ _ _ => exact hrel
    | stopped _ => exact hrel
  armed := by
    show s.armed - 1 = 0
    rw [h.armed]
  cleared := h.cleared

theorem loopInv_deliver {s : Session} {d : DecState} {xs : List UInt8} (h : Live s d)
    (hne : xs ≠ []) (hlen : xs.length ≤ maxLength) :
    LoopInv xs (List.replicate (maxLength - xs.length) 0) (feed DecState.step d xs).1
      (s.posts ++ (feed DecState.step d xs).2) ⟨s.deliver xs, 0, xs.length⟩ :=
  ⟨[], xs, d, atHead_deliver h hlen, hne, List.nil_append xs, rfl, rfl⟩

/-- **One call of `HandleRead`** is the decoder on the bytes of the read. -/
theorem handleRead_refines {s : Session} {d : DecState} {xs : List UInt8} (h : Live s d)
    (hne : xs ≠ []) (hlen : xs.length ≤ maxLength) :
    ∃ e, handleRead (s.deliver xs) xs.length = some e ∧
      Leaves e (feed DecState.step d xs).1 (s.posts ++ (feed DecState.step d xs).2) := by
  have hinv := loopInv_deliver h hne hlen
  have htotal := @Loop.iterate_total Cursor Exit loopCond loopBody
    (LoopInv xs (List.replicate (maxLength - xs.length) 0) (feed DecState.step d xs).1
      (s.posts ++ (feed DecState.step d xs).2))
    (fun r => ∃ e, r = .error e ∧ Leaves e (feed DecState.step d xs).1
      (s.posts ++ (feed DecState.step d xs).2))
    Cursor.bytesTransferred ?_ ?_ ?_ (xs.length + 1) _ hinv (Nat.lt_succ_self _)
  · obtain ⟨r, hr, e, rfl, hl⟩ := htotal
    refine ⟨e, ?_, hl⟩
    unfold handleRead
    rw [hr]
  · -- the loop is never left at its head: bytes are left as long as the invariant holds
    rintro c ⟨pre, ys, d', hat, hys, -⟩ hc
    have hpos := List.length_pos_iff.mpr hys
    have hleft := hat.left
    simp only [loopCond, decide_eq_false_iff_not] at hc
    omega
  · intro c e hI _ hb
    rcases loopBody_spec hI with ⟨e', he', hl⟩ | ⟨c', hc', -⟩
    · rw [he'] at hb
      obtain rfl := Except.error.inj hb
      exact ⟨e', rfl, hl⟩
    · rw [hc'] at hb
      cases hb
  · intro c c' hI _ hb
    rcases loopBody_spec hI with ⟨e', he', -⟩ | ⟨c'', hc'', hI', hlt⟩
    · rw [he'] at hb
      cases hb
    · rw [hc''] at hb
      obtain rfl := Except.ok.inj hb
      exact ⟨hI', hlt⟩

/-! ## Any number of reads -/

theorem decodeReads_cons (d : DecState) (xs : List UInt8) (rest : List (List UInt8)) :
    decodeReads d (xs :: rest) =
      ((decodeReads (feed DecState.step d xs).1.forget rest).1,
        (feed DecState.step d xs).2 ++ (decodeReads (feed DecState.step d xs).1.forget rest).2) :=
  rfl

theorem decodeReads_stopped (h : Header) (reads : List (List UInt8)) :
    decodeReads (.stopped h) reads = (.stopped h, []) := by
  induction reads with
  | nil => rfl
  | cons xs rest ih =>
    rw [decodeReads_cons, feed_stopped, forget_stopped, ih]
    rfl

/-- Without a read armed nothing more is delivered. -/
theorem runReads_dead {s : Session} (h : s.armed = 0) (reads : List (List UInt8)) :
    runReads s reads = some (.returned s) := by
  cases reads with
  | nil => rfl
  | cons xs rest => exact if_pos h

/-- What a run from a live session ends in. -/
structure RunEnds (e : Exit) (d : DecState) (ps : List Post) : Prop where
  outcome : e.outcome = decOutcome d
  posts : e.posts = ps
  live : (∀ h, d ≠ .stopped h) → ∃ s, e = .returned s ∧ Live s d
  dead : (∃ h, d = .stopped h) → e.session.armed = 0

/-- **`HandleRead` over any reads** is the decoder that forgets incomplete headers. -/
theorem runReads_refines {s : Session} {d : DecState} (h : Live s d) {reads : List (List UInt8)}
    (hne : ∀ r ∈ reads, r ≠ []) (hlen : ∀ r ∈ reads, r.length ≤ maxLength) :
    ∃ e, runReads s reads = some e ∧
      RunEnds e (decodeReads d reads).1 (s.posts ++ (decodeReads d reads).2) := by
  induction reads generalizing s d with
  | nil =>
    refine ⟨.returned s, rfl, ?_, (List.append_nil _).symm, fun _ => ⟨s, rfl, h⟩, ?_⟩
    rotate_left
    · rintro ⟨h', rfl⟩
      exact h.rel.elim
    have hd : decOutcome d = .reading := by
      cases d with
      | header _ => rfl
      | payload _ _ _ => rfl
      | stopped _ => exact h.rel.elim
    show (if s.cleared then Outcome.cleared else if s.armed = 0 then .stranded else .reading) = _
    rw [h.cleared, h.armed]
    exact hd.symm
  | cons xs rest ih =>
    obtain ⟨e, he, hl⟩ := handleRead_refines h (hne xs List.mem_cons_self)
      (hlen xs List.mem_cons_self)
    have harmed : ¬ s.armed = 0 := by rw [h.armed]; exact one_ne_zero
    rw [decodeReads_cons]
    by_cases hst : ∃ h', (feed DecState.step d xs).1 = .stopped h'
    · have hdead := hl.dead hst
      obtain ⟨h', hst⟩ := hst
      rw [hst, forget_stopped, decodeReads_stopped, List.append_nil]
      rw [hst] at hl
      have hrun : ∃ e', runReads s (xs :: rest) = some e' ∧ e'.outcome = e.outcome ∧
          e'.posts = e.posts ∧ e'.session.armed = e.session.armed := by
        unfold runReads
        rw [if_neg harmed, he]
        cases e with
        | returned s' => exact ⟨_, runReads_dead hdead rest, rfl, rfl, rfl⟩
        | caught s' => exact ⟨_, runReads_dead hdead rest, rfl, rfl, rfl⟩
        | undefined s' => exact ⟨_, rfl, rfl, rfl, rfl⟩
      obtain ⟨e', hr, ho, hp, ha⟩ := hrun
      exact ⟨e', hr, ho.trans hl.outcome, hp.trans hl.posts, fun hns => absurd rfl (hns h'),
        fun _ => ha.trans hdead⟩
    · obtain ⟨s', rfl, hlive⟩ := hl.live fun h' hd => hst ⟨h', hd⟩
      have hposts : s'.posts = s.posts ++ (feed DecState.step d xs).2 := hl.posts
      obtain ⟨e', hr, hends⟩ := ih hlive (fun r hr => hne r (List.mem_cons_of_mem _ hr))
        fun r hr => hlen r (List.mem_cons_of_mem _ hr)
      rw [hposts, List.append_assoc] at hends
      refine ⟨e', ?_, hends⟩
      unfold runReads
      rw [if_neg harmed, he]
      exact hr

theorem live_fresh : Live Session.fresh (.header []) :=
  ⟨⟨rfl, rfl, rfl⟩, ⟨rfl, rfl⟩, rfl, rfl, rfl⟩

/-- The run over a cutting, from a fresh session. -/
theorem runReads_fresh {s : List UInt8} (c : Cutting s) :
    ∃ e, runReads Session.fresh c.reads = some e ∧
      RunEnds e (decodeReads (.header []) c.reads).1 (decodeReads (.header []) c.reads).2 :=
  runReads_refines live_fresh c.nonempty c.bounded

end AsioLearn.LogicServer
