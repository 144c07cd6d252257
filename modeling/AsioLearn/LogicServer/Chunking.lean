import AsioLearn.LogicServer.Refine

/-!
# `HandleRead` and the cuts of the stream

TCP may deliver a stream in reads of any lengths. `runReads` over two cuttings of one stream is
compared in what it posts and in how it leaves the connection (`SameRun`; a run that ends in
undefined behaviour is the same as no other).

`HandleRead` does not add the bytes of an incomplete header to `_recv_head_node->_cur_len`, so a
cut inside a header loses them. Results:
* `handleRead_same_iff`: two cuttings that do not cut a header agree, as long as the stream does
  not reach the one length that is undefined behaviour; and all cuttings of a stream agree exactly
  when it is `Quiet`: wherever four of its bytes are read as a header, that header is accepted and
  announces more payload than the stream has left. Every other stream has two cuttings that differ.
* `handleRead_roundtrip`: reads that do not cut a header give back the messages that `SendNode`
  encoded, whatever else they cut.
-/

namespace AsioLearn.LogicServer

open AsioLearn.Cpp AsioLearn.Wire AsioLearn.Lib AsioLearn.Lib.Transducer

/-! ## Two cuttings of one stream -/

/-- The two runs end, defined, with the same messages posted and the same outcome. -/
def SameRun {s : List UInt8} (c c' : Cutting s) : Prop :=
  ∃ e e', runReads Session.fresh c.reads = some e ∧ runReads Session.fresh c'.reads = some e' ∧
    e.posts = e'.posts ∧ e.outcome = e'.outcome ∧ e.outcome ≠ .undefined

/-- No read but the last ends strictly inside a header. -/
def NoHeaderCut {s : List UInt8} (c : Cutting s) : Prop :=
  ∀ k, 0 < k → k < c.reads.length → ¬ (decode (c.reads.take k).flatten).1.MidHeader

/-- Wherever four bytes of the stream are read as a header, it is accepted and announces more
payload than is left of the stream. -/
def Quiet (s : List UInt8) : Prop :=
  ∀ pre b₀ b₁ b₂ b₃ post, s = pre ++ b₀ :: b₁ :: b₂ :: b₃ :: post →
    (Header.ofBytes b₀ b₁ b₂ b₃).Accepted ∧
      (post.length : Int) < (Header.ofBytes b₀ b₁ b₂ b₃).len.toInt

theorem sameRun_iff {s : List UInt8} (c c' : Cutting s) :
    SameRun c c' ↔
      (decodeReads (.header []) c.reads).2 = (decodeReads (.header []) c'.reads).2 ∧
      decOutcome (decodeReads (.header []) c.reads).1
        = decOutcome (decodeReads (.header []) c'.reads).1 ∧
      decOutcome (decodeReads (.header []) c.reads).1 ≠ .undefined := by
  obtain ⟨e, he, hends⟩ := runReads_fresh c
  obtain ⟨e', he', hends'⟩ := runReads_fresh c'
  constructor
  · rintro ⟨f, f', hf, hf', hposts, hout, hdef⟩
    obtain rfl := Option.some.inj (he.symm.trans hf)
    obtain rfl := Option.some.inj (he'.symm.trans hf')
    rw [← hends.posts, ← hends'.posts, ← hends.outcome, ← hends'.outcome]
    exact ⟨hposts, hout, hdef⟩
  · rintro ⟨hposts, hout, hdef⟩
    refine ⟨e, e', he, he', ?_, ?_, ?_⟩
    · rw [hends.posts, hends'.posts, hposts]
    · rw [hends.outcome, hends'.outcome, hout]
    · rw [hends.outcome]
      exact hdef

theorem NoHeaderCut.kept {s : List UInt8} {c : Cutting s} (h : NoHeaderCut c) :
    CutsKept DecState.step DecState.forget (.header []) c.reads :=
  fun k h0 hk => forget_eq_self (h k h0 hk)

theorem decOutcome_forget (d : DecState) : decOutcome d.forget = decOutcome d := by
  cases d <;> rfl

/-- Without a cut inside a header the run is the reference decoder's. -/
theorem decodeReads_of_noHeaderCut {s : List UInt8} {c : Cutting s} (h : NoHeaderCut c) :
    (decodeReads (.header []) c.reads).2 = (decode s).2 ∧
      decOutcome (decodeReads (.header []) c.reads).1 = decOutcome (decode s).1 := by
  by_cases hne : c.reads = []
  · obtain rfl : s = [] := by rw [← c.flatten_eq, hne, List.flatten_nil]
    rw [hne]
    exact ⟨rfl, rfl⟩
  · unfold decodeReads decode
    rw [feedChunks_of_kept h.kept hne, c.flatten_eq]
    exact ⟨rfl, decOutcome_forget _⟩

/-! ### Bytewise delivery -/

/-- One byte a read never completes a header. -/
theorem decodeReads_bytewise (ys : List UInt8) (rest : List (List UInt8)) :
    decodeReads (.header []) (ys.map (fun b => [b]) ++ rest) = decodeReads (.header []) rest := by
  induction ys with
  | nil => rfl
  | cons y ys ih =>
    rw [List.map_cons, List.cons_append, decodeReads_cons,
      feed_header_short (show [].length + [y].length < 4 by simp)]
    exact congrArg (fun r => (r.1, [] ++ r.2)) ih

/-- A payload that ends within the stream is posted, also one byte a read. -/
theorem decodeReads_payload_bytewise {id : Int16} {len : Nat} {acc ys : List UInt8}
    (hlt : acc.length < len) (hle : len ≤ acc.length + ys.length) :
    (decodeReads (.payload id len acc) (ys.map fun b => [b])).2 ≠ [] := by
  induction ys generalizing acc with
  | nil =>
    rw [List.length_nil] at hle
    omega
  | cons y ys ih =>
    rw [List.map_cons, decodeReads_cons]
    rw [List.length_cons] at hle
    by_cases hlast : acc.length + 1 < len
    · rw [feed_payload_short (by simpa using hlast), List.nil_append]
      exact ih (by simpa using hlast) (by rw [List.length_append, List.length_singleton]; omega)
    · rw [feed_payload_full hlt (by rw [List.length_singleton]; omega)]
      simp

/-- A payload that ends past the stream is never posted, however the stream is cut. -/
theorem decodeReads_payload_short {id : Int16} {len : Nat} {acc : List UInt8}
    {reads : List (List UInt8)} (h : acc.length + reads.flatten.length < len) :
    decodeReads (.payload id len acc) reads = (.payload id len (acc ++ reads.flatten), []) := by
  induction reads generalizing acc with
  | nil => rw [List.flatten_nil, List.append_nil]; rfl
  | cons xs rest ih =>
    rw [List.flatten_cons, List.length_append] at h
    have hrest : (acc ++ xs).length + rest.flatten.length < len := by
      rw [List.length_append]
      omega
    rw [decodeReads_cons, feed_payload_short (by omega), List.flatten_cons]
    show ((decodeReads (.payload id len (acc ++ xs)) rest).1,
      [] ++ (decodeReads (.payload id len (acc ++ xs)) rest).2) = _
    rw [ih hrest, List.append_assoc]
    rfl

theorem Quiet.suffix {pre s : List UInt8} (h : Quiet (pre ++ s)) : Quiet s := by
  rintro pre' b₀ b₁ b₂ b₃ post rfl
  exact h (pre ++ pre') b₀ b₁ b₂ b₃ post (by rw [List.append_assoc])

/-- A quiet stream posts nothing and keeps the session reading, however it is cut. -/
theorem Quiet.decodeReads {reads : List (List UInt8)} (h : Quiet reads.flatten) :
    (Wire.decodeReads (.header []) reads).2 = [] ∧
      decOutcome (Wire.decodeReads (.header []) reads).1 = .reading := by
  induction reads with
  | nil => exact ⟨rfl, rfl⟩
  | cons xs rest ih =>
    rw [List.flatten_cons] at h
    rw [decodeReads_cons]
    by_cases hlt : xs.length < headTotalLen
    · rw [feed_header_short (by simpa using hlt), List.nil_append]
      exact ih h.suffix
    · obtain ⟨b₀, b₁, b₂, b₃, zs, rfl⟩ := exists_four hlt
      obtain ⟨hacc, hmore⟩ := h [] b₀ b₁ b₂ b₃ (zs ++ rest.flatten) rfl
      rw [List.length_append] at hmore
      rw [feed_header, enter_accepted hacc (by omega),
        feed_payload_short (by rw [List.length_nil]; omega), List.nil_append, List.nil_append,
        List.nil_append]
      show (Wire.decodeReads (.payload _ _ zs) rest).2 = [] ∧
        decOutcome (Wire.decodeReads (.payload _ _ zs) rest).1 = .reading
      rw [decodeReads_payload_short (by omega)]
      exact ⟨rfl, rfl⟩

/-- One byte a read, except for the four bytes of a header. -/
def Cutting.around (pre : List UInt8) (b₀ b₁ b₂ b₃ : UInt8) (post : List UInt8) :
    Cutting (pre ++ b₀ :: b₁ :: b₂ :: b₃ :: post) where
  reads := pre.map (fun b => [b]) ++ [b₀, b₁, b₂, b₃] :: post.map fun b => [b]
  flatten_eq := by
    have hsplit : ∀ ys : List UInt8, (ys.map fun b => [b]).flatten = ys :=
      fun ys => (Cutting.bytewise ys).flatten_eq
    rw [List.flatten_append, List.flatten_cons, hsplit, hsplit]
    rfl
  nonempty := by
    intro r hr
    rcases List.mem_append.mp hr with hr | hr
    · exact (Cutting.bytewise pre).nonempty r hr
    · rcases List.mem_cons.mp hr with rfl | hr
      · simp
      · exact (Cutting.bytewise post).nonempty r hr
  bounded := by
    intro r hr
    rcases List.mem_append.mp hr with hr | hr
    · exact (Cutting.bytewise pre).bounded r hr
    · rcases List.mem_cons.mp hr with rfl | hr
      · exact show 4 ≤ 1024 * 2 by omega
      · exact (Cutting.bytewise post).bounded r hr

/-- If every cutting behaves like the bytewise one, the stream is quiet. -/
theorem quiet_of_same {s : List UInt8} (h : ∀ c c' : Cutting s, SameRun c c') : Quiet s := by
  rintro pre b₀ b₁ b₂ b₃ post rfl
  have hsame := (sameRun_iff _ _).mp (h (Cutting.around pre b₀ b₁ b₂ b₃ post) (Cutting.bytewise _))
  have hbyte : Wire.decodeReads (.header [])
      (Cutting.bytewise (pre ++ b₀ :: b₁ :: b₂ :: b₃ :: post)).reads = (.header [], []) := by
    have := decodeReads_bytewise (pre ++ b₀ :: b₁ :: b₂ :: b₃ :: post) []
    rwa [List.append_nil] at this
  have hround : Wire.decodeReads (.header []) (Cutting.around pre b₀ b₁ b₂ b₃ post).reads =
      Wire.decodeReads (.header []) ([b₀, b₁, b₂, b₃] :: post.map fun b => [b]) :=
    decodeReads_bytewise pre _
  rw [hbyte, hround, decodeReads_cons, feed_header] at hsame
  obtain ⟨hposts, hout, -⟩ := hsame
  simp only [feed_nil, List.append_nil] at hposts hout
  set hd := Header.ofBytes b₀ b₁ b₂ b₃
  by_cases hacc : hd.Accepted
  · refine ⟨hacc, ?_⟩
    have h0 := hacc.2.1
    by_cases hlen : hd.len.toInt = 0
    · rw [enter_empty hacc hlen] at hposts
      simp at hposts
    · rw [enter_accepted hacc hlen] at hposts
      by_contra hle
      refine @decodeReads_payload_bytewise hd.id hd.len.toInt.toNat [] post ?_ ?_ hposts
      · rw [List.length_nil]; omega
      · rw [List.length_nil]; omega
  · rw [enter_stopped hacc, forget_stopped, decodeReads_stopped] at hout
    exfalso
    change stopOutcome hd = .reading at hout
    unfold stopOutcome at hout
    split_ifs at hout

/-- **When the cuts of a stream are invisible.** Two cuttings that do not cut a header agree, on
every stream that does not reach the length `-1`. All cuttings of a stream agree if and only if the
stream is quiet. -/
theorem handleRead_same_iff (s : List UInt8) :
    (decOutcome (decode s).1 ≠ .undefined →
      ∀ c c' : Cutting s, NoHeaderCut c → NoHeaderCut c' → SameRun c c') ∧
    ((∀ c c' : Cutting s, SameRun c c') ↔ Quiet s) := by
  refine ⟨?_, quiet_of_same, ?_⟩
  · intro hdef c c' hc hc'
    obtain ⟨hp, ho⟩ := decodeReads_of_noHeaderCut hc
    obtain ⟨hp', ho'⟩ := decodeReads_of_noHeaderCut hc'
    rw [sameRun_iff, hp, hp', ho, ho']
    exact ⟨rfl, rfl, hdef⟩
  · intro hq c c'
    obtain ⟨hp, ho⟩ := @Quiet.decodeReads c.reads (by rw [c.flatten_eq]; exact hq)
    obtain ⟨hp', ho'⟩ := @Quiet.decodeReads c'.reads (by rw [c'.flatten_eq]; exact hq)
    rw [sameRun_iff, hp, hp', ho, ho']
    exact ⟨rfl, rfl, by decide⟩

/-- The frame of the message `(1001, "a")`, in one read and with its header cut after one byte. -/
theorem handleRead_cut_header : ¬ ∀ (s : List UInt8) (c c' : Cutting s), SameRun c c' := by
  intro h
  have hsame := (sameRun_iff _ _).mp (h [3, 233, 0, 1, 97]
    ⟨[[3, 233, 0, 1, 97]], rfl, by decide, by decide⟩
    ⟨[[3], [233, 0, 1, 97]], rfl, by decide, by decide⟩)
  exact absurd hsame.1 (by decide)

/-! ## Decoding what `SendNode` encoded -/

/-- Position `p` of the encoded messages is strictly inside one of the headers. -/
def InsideHeader (fs : List Frame) (p : Nat) : Prop :=
  ∃ before f after, fs = before ++ f :: after ∧ (before.flatMap Frame.bytes).length < p ∧
    p < (before.flatMap Frame.bytes).length + headTotalLen

theorem insideHeader_cons {f : Frame} {fs : List Frame} {p : Nat}
    (h : InsideHeader fs (p - f.bytes.length)) (hle : f.bytes.length ≤ p) :
    InsideHeader (f :: fs) p := by
  obtain ⟨before, g, after, rfl, h1, h2⟩ := h
  refine ⟨f :: before, g, after, rfl, ?_, ?_⟩
  · rw [List.flatMap_cons, List.length_append]
    omega
  · rw [List.flatMap_cons, List.length_append]
    omega

/-- The decoder is strictly inside a header only where the position is. -/
theorem insideHeader_of_mid {fs : List Frame} {p : Nat} (hp : p ≤ (fs.flatMap Frame.bytes).length)
    (h : (decode ((fs.flatMap Frame.bytes).take p)).1.MidHeader) : InsideHeader fs p := by
  unfold decode at h
  induction fs generalizing p with
  | nil =>
    rw [List.flatMap_nil, List.take_nil] at h
    exact absurd rfl h
  | cons f fs ih =>
    rw [List.flatMap_cons] at h hp
    rw [List.length_append] at hp
    by_cases hle : f.bytes.length ≤ p
    · rw [List.take_append, List.take_of_length_le hle, feed_frame] at h
      exact insideHeader_cons (ih (by omega) h) hle
    · refine ⟨[], f, fs, rfl, ?_, ?_⟩
      · -- at position 0 the decoder has read nothing
        rcases Nat.eq_zero_or_pos p with rfl | hpos
        · exact absurd rfl h
        · exact hpos
      · -- past the header it is inside the payload
        by_contra hge
        rw [List.flatMap_nil, List.length_nil, Nat.zero_add, not_lt] at hge
        obtain ⟨b₀, b₁, b₂, b₃, hbytes, hhead⟩ := exists_header_bytes f
        obtain ⟨k, rfl⟩ : ∃ k, p = k + 4 := ⟨p - 4, by have : headTotalLen = 4 := rfl; omega⟩
        have hlen := f.bytes_length
        have hlen' := f.len_toInt
        have h4 : headTotalLen = 4 := rfl
        have hk : k < f.payload.length := by omega
        have hlen'' : (Header.mk f.id f.len).len.toInt = f.payload.length := hlen'
        rw [List.take_append_of_le_length (by omega), hbytes, List.take_succ_cons,
          List.take_succ_cons, List.take_succ_cons, List.take_succ_cons, feed_header, hhead,
          enter_accepted f.accepted (by omega),
          feed_payload_short (by rw [List.length_nil, List.length_take]; dsimp only; omega)] at h
        exact h

/-- Delivering more reads to a run that is not over. -/
theorem runReads_append {s s' : Session} {rs ts : List (List UInt8)}
    (h : runReads s rs = some (.returned s')) : runReads s (rs ++ ts) = runReads s' ts := by
  induction rs generalizing s with
  | nil =>
    obtain rfl := Exit.returned.inj (Option.some.inj h)
    rfl
  | cons xs rs ih =>
    by_cases harmed : s.armed = 0
    · rw [runReads_dead harmed] at h ⊢
      obtain rfl := Exit.returned.inj (Option.some.inj h)
      rw [runReads_dead harmed]
    · unfold runReads at h
      rw [if_neg harmed] at h
      rw [List.cons_append]
      conv_lhs => unfold runReads
      rw [if_neg harmed]
      split at h
      · cases h
      · cases h
      · exact ih h
      · exact ih h

/-- What a session is left with when a run ends between two messages. -/
theorem runReads_at_header {s : List UInt8} {c : Cutting s} (hc : NoHeaderCut c)
    (hd : (decode s).1 = .header []) :
    ∃ t, runReads Session.fresh c.reads = some (.returned t) ∧ t.posts = (decode s).2 ∧
      t.bHeadParse = false ∧ HeadClear t ∧ t.armed = 1 := by
  by_cases hne : c.reads = []
  · obtain rfl : s = [] := by rw [← c.flatten_eq, hne, List.flatten_nil]
    rw [hne]
    exact ⟨Session.fresh, rfl, rfl, rfl, ⟨rfl, rfl⟩, rfl⟩
  · -- the last read is taken by itself: it ends at a header, so it ends with a message
    obtain ⟨init, last, hreads⟩ : ∃ init last, c.reads = init ++ [last] :=
      ⟨_, _, (List.dropLast_concat_getLast hne).symm⟩
    have hkept := hc.kept
    rw [hreads] at hkept
    have hinit : decodeReads (.header []) init = decode init.flatten :=
      feedChunks_before_last hkept
    have hflat : s = init.flatten ++ last := by
      rw [← c.flatten_eq, hreads, List.flatten_append, List.flatten_singleton]
    have hmem : ∀ r ∈ init, r ∈ c.reads := fun r hr => by
      rw [hreads]
      exact List.mem_append_left _ hr
    have hlast : last ∈ c.reads := by
      rw [hreads]
      exact List.mem_append_right _ (List.mem_singleton_self _)
    have hfeed := congrArg decode hflat
    unfold decode at hfeed hd ⊢
    rw [feed_append] at hfeed
    rw [hfeed] at hd ⊢
    obtain ⟨e, he, hends⟩ := runReads_refines live_fresh (fun r hr => c.nonempty r (hmem r hr))
      fun r hr => c.bounded r (hmem r hr)
    rw [hinit] at hends
    obtain ⟨s', rfl, hlive⟩ := hends.live fun h hst => by
      unfold decode at hst
      rw [hst, feed_stopped] at hd
      cases hd
    obtain ⟨e', he', hl⟩ := handleRead_refines hlive (c.nonempty last hlast) (c.bounded last hlast)
    have hd' : (feed DecState.step (decode init.flatten).1 last).1 = .header [] := hd
    obtain ⟨t, rfl, hlive'⟩ := hl.live fun h hst => by rw [hd'] at hst; cases hst
    have hclear := hl.clear hd'
    rw [hd'] at hlive'
    refine ⟨t, ?_, ?_, hlive'.rel.2, hclear, hlive'.armed⟩
    · rw [hreads, runReads_append he]
      unfold runReads
      rw [if_neg (by rw [hlive.armed]; exact one_ne_zero), he']
      rfl
    · exact hl.posts.trans (congrArg (· ++ _) hends.posts)

/-- **`HandleRead` undoes `SendNode`**, for reads that do not cut a header. -/
theorem handleRead_roundtrip (fs : List Frame) :
    ∃ s, sendNodes (fun _ => zeros) fs = .ok s ∧
      ∀ c : Cutting s,
        (∀ k, 0 < k → k < c.reads.length → ¬ InsideHeader fs (c.reads.take k).flatten.length) →
        ∃ t, runReads Session.fresh c.reads = some (.returned t) ∧
          t.posted.map (fun n => (n.msgId, n.data.take (sizeT n.curLen.toInt)))
            = fs.map (fun f => (f.id, f.payload)) ∧
          t.bHeadParse = false ∧ HeadClear t ∧ t.armed = 1 := by
  refine ⟨_, sendNodes_eq _ fs, ?_⟩
  intro c hcut
  have hdec : decode (fs.flatMap Frame.bytes) = (.header [], fs.map Frame.post) := feed_frames fs
  have hc : NoHeaderCut c := by
    intro k h0 hk hmid
    have hsplit : (c.reads.take k).flatten ++ (c.reads.drop k).flatten =
        fs.flatMap Frame.bytes := by
      rw [← List.flatten_append, List.take_append_drop]
      exact c.flatten_eq
    have hinside : ∀ taken left : List UInt8, taken ++ left = fs.flatMap Frame.bytes →
        (decode taken).1.MidHeader → InsideHeader fs taken.length := by
      rintro taken left heq hmid
      refine insideHeader_of_mid ?_ ?_
      · rw [← heq, List.length_append]
        omega
      · rw [← heq, List.take_left]
        exact hmid
    exact hcut k h0 hk (hinside _ _ hsplit hmid)
  obtain ⟨t, hrun, hposts, hparse, hclear, harmed⟩ := runReads_at_header hc (by rw [hdec])
  rw [hdec] at hposts
  exact ⟨t, hrun, hposts, hparse, hclear, harmed⟩

end AsioLearn.LogicServer
