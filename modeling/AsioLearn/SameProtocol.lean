import AsioLearn.LogicServer.Chunking
import AsioLearn.BoostCoServer.Refine

/-!
# The two servers speak one protocol

`logicServer` parses whatever its reads happen to hold, `BoostCoServer` reads headers and payloads
whole. Both are compared with the wire decoder: on a stream whose lengths are positive, and with no
cut inside a header for `logicServer`, they post what it decodes, and clear the session exactly
where it stops (`expected`).

Results:
* `logic_expected`, `boost_expected`: each server against the decoder;
* `same_protocol`: after every prefix of the stream both have posted the same messages, and both
  read on or both have rejected the same header; behind a rejected header nothing is posted.
-/

namespace AsioLearn

open Wire Lib.Transducer

/-- Every length field that a parser reaches is at least 1. Behind a rejected id the length is not
looked at. -/
def PositiveLengths (s : List UInt8) : Prop :=
  ∀ h, Reaches s h → h.IdOk → 1 ≤ h.len.toInt

/-- The stream is rejected at the header `h`, behind frames with the messages `ps`. -/
def RejectsAt (s : List UInt8) (h : Header) (ps : List Post) : Prop :=
  ∃ (fs : List Frame) (b₀ b₁ b₂ b₃ : UInt8) (post : List UInt8),
    s = fs.flatMap Frame.bytes ++ b₀ :: b₁ :: b₂ :: b₃ :: post ∧
      Header.ofBytes b₀ b₁ b₂ b₃ = h ∧ (¬ h.IdOk ∨ maxLength < h.len.toInt) ∧
      ps = fs.map Frame.post

/-- The messages and the outcome of a connection with the stream `s`. -/
def expected (s : List UInt8) : List Post × Outcome :=
  ((decode s).2, match (decode s).1 with
    | .stopped _ => .cleared
    | _ => .reading)

theorem PositiveLengths.take {s : List UInt8} (h : PositiveLengths s) (k : Nat) :
    PositiveLengths (s.take k) := by
  intro hd hr
  have := hr.append (t := s.drop k)
  rw [List.take_append_drop] at this
  exact h hd this

/-- Where lengths are positive, a header that is not accepted is over a bound. -/
theorem PositiveLengths.rejected {s : List UInt8} (h : PositiveLengths s) {hd : Header}
    (hr : Reaches s hd) (hna : ¬ hd.Accepted) : ¬ hd.IdOk ∨ (maxLength : Int) < hd.len.toInt := by
  by_contra hok
  obtain ⟨hid, hle⟩ := not_or.mp hok
  have hid := not_not.mp hid
  have hpos := h hd hr hid
  exact hna ⟨hid, by omega, not_lt.mp hle⟩

theorem expected_cleared_iff {s : List UInt8} :
    (expected s).2 = .cleared ↔ ∃ hd, (decode s).1 = .stopped hd := by
  unfold expected
  cases (decode s).1 with
  | header acc => exact iff_of_false (fun h => (by cases h)) fun ⟨_, h⟩ => (by cases h)
  | payload id len acc => exact iff_of_false (fun h => (by cases h)) fun ⟨_, h⟩ => (by cases h)
  | stopped hd => exact iff_of_true rfl ⟨hd, rfl⟩

/-- A cleared session was rejected at a header. -/
theorem rejectsAt_of_expected {s : List UInt8} (h : PositiveLengths s)
    (hc : (expected s).2 = .cleared) : ∃ hd, RejectsAt s hd (expected s).1 := by
  obtain ⟨hd, hst⟩ := expected_cleared_iff.mp hc
  obtain ⟨hr, hna⟩ := stopped_iff.mp hst
  have hrej := h.rejected hr hna
  obtain ⟨fs, b₀, b₁, b₂, b₃, post, rfl, hh⟩ := hr
  refine ⟨hd, fs, b₀, b₁, b₂, b₃, post, rfl, hh, hrej, ?_⟩
  unfold expected
  rw [decode_frames_append]
  -- the decoder stops at once at what is behind the frames
  have hrest : (decode (b₀ :: b₁ :: b₂ :: b₃ :: post)).2 = [] := by
    unfold decode
    rw [feed_header, hh, enter_stopped hna, feed_stopped]
    rfl
  rw [hrest, List.append_nil]

/-- Nothing is decoded behind a rejected header. -/
theorem expected_after {s t : List UInt8} (hc : (expected s).2 = .cleared) :
    expected (s ++ t) = expected s := by
  obtain ⟨hd, hst⟩ := expected_cleared_iff.mp hc
  unfold expected
  unfold decode at hst ⊢
  rw [feed_append, hst, feed_stopped, List.append_nil]

/-! ## `logicServer` -/

theorem logic_expected {s : List UInt8} (h : PositiveLengths s) {c : Cutting s}
    (hc : LogicServer.NoHeaderCut c) :
    ∃ e, LogicServer.runReads LogicServer.Session.fresh c.reads = some e ∧
      e.posts = (expected s).1 ∧ e.outcome = (expected s).2 := by
  obtain ⟨e, he, hends⟩ := LogicServer.runReads_fresh c
  obtain ⟨hposts, hout⟩ := LogicServer.decodeReads_of_noHeaderCut hc
  refine ⟨e, he, hends.posts.trans hposts, (hends.outcome.trans hout).trans ?_⟩
  unfold expected
  cases hst : (decode s).1 with
  | header acc => rfl
  | payload id len acc => rfl
  | stopped hd =>
    obtain ⟨hr, hna⟩ := stopped_iff.mp hst
    exact if_pos (h.rejected hr hna)

/-! ## `BoostCoServer` -/

/-- Positive lengths make every message solid. -/
theorem PositiveLengths.solid {s : List UInt8} (h : PositiveLengths s) :
    ∀ p ∈ (decode s).2, BoostCoServer.solid p = true := by
  intro p hp
  obtain ⟨hd, hr, ha, hlen⟩ := reaches_of_post hp
  have hpos := h hd hr ha.1
  have hne : p.2 ≠ [] := by
    rintro hnil
    rw [hnil, List.length_nil] at hlen
    omega
  unfold BoostCoServer.solid
  rw [List.isEmpty_eq_false_iff.mpr hne]
  rfl

theorem boost_expected {s : List UInt8} (h : PositiveLengths s) (heap : Nat → Nat → UInt8)
    (closeThrows : Bool) {t : BoostCoServer.Session} (ht : BoostCoServer.Live t)
    (hnone : t.posted = []) :
    ∃ e, BoostCoServer.start heap closeThrows t s = some e ∧
      e.session.posts = (expected s).1 ∧ e.outcome = (expected s).2 := by
  obtain ⟨e, he, hf⟩ := @BoostCoServer.start_refines heap closeThrows t ht s
  have hempty : t.posts = [] := by
    unfold BoostCoServer.Session.posts
    rw [hnone]
    rfl
  have hposts := hf.posts
  have hout := hf.outcome
  rw [hempty, List.nil_append, List.takeWhile_eq_self_iff.mpr h.solid] at hposts
  rw [if_pos (List.all_eq_true.mpr h.solid)] at hout
  refine ⟨e, he, hposts, hout.trans ?_⟩
  unfold expected
  cases hst : (decode s).1 with
  | header acc => rfl
  | payload id len acc => rfl
  | stopped hd =>
    obtain ⟨hr, hna⟩ := stopped_iff.mp hst
    exact if_pos (h.rejected hr hna)

/-! ## Both servers -/

theorem expected_outcome (s : List UInt8) :
    (expected s).2 = .reading ∨ (expected s).2 = .cleared := by
  unfold expected
  cases (decode s).1 with
  | header acc => exact Or.inl rfl
  | payload id len acc => exact Or.inl rfl
  | stopped hd => exact Or.inr rfl

/-- The stream up to a later position. -/
theorem expected_take {s : List UInt8} {k l : Nat} (hkl : k ≤ l)
    (hc : (expected (s.take k)).2 = .cleared) : expected (s.take l) = expected (s.take k) := by
  have hsplit : s.take l = s.take k ++ (s.take l).drop k := by
    have htake : (s.take l).take k = s.take k := by rw [List.take_take, Nat.min_eq_left hkl]
    rw [← htake, List.take_append_drop]
  rw [hsplit]
  exact expected_after hc

/-- **The two servers speak one protocol**: after every prefix of the stream both have posted the
same messages, and both are still reading or have rejected the same header; and once a session is
rejected it posts nothing more. -/
theorem same_protocol {s : List UInt8} (h : PositiveLengths s) (init : Nat → UInt8)
    (heap : Nat → Nat → UInt8) (closeThrows : Bool) :
    ∃ t, BoostCoServer.Session.new init = .ok t ∧
      (∀ k (c : Cutting (s.take k)), LogicServer.NoHeaderCut c →
        ∃ e e', LogicServer.runReads LogicServer.Session.fresh c.reads = some e ∧
          BoostCoServer.start heap closeThrows t (s.take k) = some e' ∧
          e.posts = e'.session.posts ∧
          ((e.outcome = .reading ∧ e'.outcome = .reading) ∨
            (e.outcome = .cleared ∧ e'.outcome = .cleared ∧
              ∃ hd, RejectsAt (s.take k) hd e.posts))) ∧
      ∀ k l, k ≤ l →
        (∀ (c : Cutting (s.take k)) (c' : Cutting (s.take l)) e f,
          LogicServer.NoHeaderCut c → LogicServer.NoHeaderCut c' →
          LogicServer.runReads LogicServer.Session.fresh c.reads = some e →
          LogicServer.runReads LogicServer.Session.fresh c'.reads = some f →
          e.outcome = .cleared → f.posts = e.posts) ∧
        ∀ e f, BoostCoServer.start heap closeThrows t (s.take k) = some e →
          BoostCoServer.start heap closeThrows t (s.take l) = some f →
          e.outcome = .cleared → f.session.posts = e.session.posts := by
  obtain ⟨t, ht, hlive, hnone⟩ := BoostCoServer.new_live init
  have hlogic : ∀ {k} {c : Cutting (s.take k)} {e}, LogicServer.NoHeaderCut c →
      LogicServer.runReads LogicServer.Session.fresh c.reads = some e →
      e.posts = (expected (s.take k)).1 ∧ e.outcome = (expected (s.take k)).2 := by
    intro k c e hc he
    obtain ⟨e', he', hexp⟩ := logic_expected (h.take k) hc
    obtain rfl := Option.some.inj (he'.symm.trans he)
    exact hexp
  have hboost : ∀ {k} {e}, BoostCoServer.start heap closeThrows t (s.take k) = some e →
      e.session.posts = (expected (s.take k)).1 ∧ e.outcome = (expected (s.take k)).2 := by
    intro k e he
    obtain ⟨e', he', hexp⟩ := boost_expected (h.take k) heap closeThrows hlive hnone
    obtain rfl := Option.some.inj (he'.symm.trans he)
    exact hexp
  refine ⟨t, ht, ?_, ?_⟩
  · intro k c hc
    obtain ⟨e, he, hp, ho⟩ := logic_expected (h.take k) hc
    obtain ⟨e', he', hp', ho'⟩ := boost_expected (h.take k) heap closeThrows hlive hnone
    refine ⟨e, e', he, he', hp.trans hp'.symm, ?_⟩
    rw [ho, ho', hp]
    rcases expected_outcome (s.take k) with hr | hr
    · exact Or.inl ⟨hr, hr⟩
    · exact Or.inr ⟨hr, hr, rejectsAt_of_expected (h.take k) hr⟩
  · intro k l hkl
    constructor
    · intro c c' e f hc hc' he hf hcl
      obtain ⟨hp, ho⟩ := hlogic hc he
      obtain ⟨hp', -⟩ := hlogic hc' hf
      rw [hp, hp', expected_take hkl (ho.symm.trans hcl)]
    · intro e f he hf hcl
      obtain ⟨hp, ho⟩ := hboost he
      obtain ⟨hp', -⟩ := hboost hf
      rw [hp, hp', expected_take hkl (ho.symm.trans hcl)]

/-- A frame, and a header that is not all there. -/
theorem same_protocol_one : ∃ t, BoostCoServer.Session.new (fun _ => 0) = .ok t ∧
    ∃ e e',
      LogicServer.runReads LogicServer.Session.fresh [[3, 233, 0, 1], [97, 15, 255]] = some e ∧
      BoostCoServer.start (fun _ _ => 0) false t [3, 233, 0, 1, 97, 15, 255] = some e' ∧
      e.posts = e'.session.posts := by
  have hpos : PositiveLengths [3, 233, 0, 1, 97, 15, 255] := by
    intro hd hr _
    obtain ⟨b₀, b₁, b₂, b₃, post, hs, rfl⟩ := hr.first (by decide)
    simp only [List.cons.injEq] at hs
    obtain ⟨rfl, rfl, rfl, rfl, -⟩ := hs
    decide
  obtain ⟨t, ht, hall, -⟩ := same_protocol hpos (fun _ => 0) (fun _ _ => 0) false
  obtain ⟨e, e', he, he', hp, -⟩ := hall 7
    ⟨[[3, 233, 0, 1], [97, 15, 255]], rfl, by decide, by decide⟩ (by
      intro k h0 hk
      obtain rfl : k = 1 := by
        simp only [List.length_cons, List.length_nil] at hk
        omega
      exact id)
  exact ⟨t, ht, e, e', he, he', hp⟩

end AsioLearn
