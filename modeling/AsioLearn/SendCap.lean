import AsioLearn.LogicServer.SendQueue
import AsioLearn.BoostCoServer.SendQueue

/-!
# The cap of the send queues

Both servers refuse a `Send` when `send_que_size > MAX_SENDQUE` and say that the size *is*
`MAX_SENDQUE`: a queue of exactly that length takes one node more. A `Send` that is let through can
still fail in the constructor of its node, whatever the length of the queue.

* A `Send` is known by what it is given: the bytes behind its pointer, and the length.
* `SendRules` is all that the queue of either server has to do with the cap.

Results:
* `sendQue_length_le`: the queue of either server never holds more than `MAX_SENDQUE + 1` nodes.
* `send_cap_iff`: a run keeps to a cap of `MAX_SENDQUE` exactly when all its steps meet `WithinCap`.
-/

namespace AsioLearn

open AsioLearn.Cpp AsioLearn.Wire AsioLearn.Lib.Lts

/-! ## What is asked of a run -/

/-- A length for which `new` throws. -/
def Unallocatable (p : List UInt8 × Int16) : Prop :=
  p.2.toInt + headTotalLen < -1 ∨ 2 ^ 15 ≤ p.2.toInt + headTotalLen

section Cap

variable {σ ε : Type} {step : σ → ε → Option σ} {que : σ → List SendNode}
  {payload : ε → Option (List UInt8 × Int16)}

/-- A `Send` in state `s` that leads to `after` (`none`: undefined behaviour) is refused at the cap,
with nothing changed, and accepted below it. -/
def SendCapped (que : σ → List SendNode) (s : σ) (after : Option σ) : Prop :=
  ((que s).length = maxSendque → after = some s) ∧
    ((que s).length < maxSendque → ∃ t n, after = some t ∧ que t = que s ++ [n])

/-- In every state of a run the queue is within the cap, and so is what the next `Send` does. -/
def KeepsCap (step : σ → ε → Option σ) (que : σ → List SendNode)
    (payload : ε → Option (List UInt8 × Int16)) (s₀ : σ) (es : List ε) : Prop :=
  ∀ es₁ es₂ s, es = es₁ ++ es₂ → run step s₀ es₁ = some s →
    (que s).length ≤ maxSendque ∧
      ∀ e ∈ es₂.head?, (payload e).isSome → SendCapped que s (step s e)

/-- If the step is a `Send`: a node it cannot allocate when the queue is at the cap, and one it can
build when the queue is below it. -/
def WithinCap (que : σ → List SendNode) (payload : ε → Option (List UInt8 × Int16)) (s : σ)
    (e : ε) : Prop :=
  ∀ p ∈ payload e, ((que s).length = maxSendque → Unallocatable p) ∧
    ((que s).length < maxSendque → Buildable p)

/-! ## What both queues do -/

/-- What a step does to the queue. A `Send` is refused over the cap; else it does what the
constructor of its node leads to. -/
structure SendRules (step : σ → ε → Option σ) (que : σ → List SendNode)
    (payload : ε → Option (List UInt8 × Int16)) : Prop where
  refused {s e p} (he : payload e = some p) (h : maxSendque < (que s).length) : step s e = some s
  made {s e p} (he : payload e = some p) (h : (que s).length ≤ maxSendque) : ∃ init msgid,
    (∀ n, SendNode.new init p.1 p.2 msgid = .ok n →
      ∃ t, step s e = some t ∧ que t = que s ++ [n]) ∧
    (SendNode.new init p.1 p.2 msgid = .error .badArrayNewLength → step s e = some s) ∧
    (SendNode.new init p.1 p.2 msgid = .error .outOfBounds → step s e = none)
  other {s e t} (he : payload e = none) (h : step s e = some t) : (que t).length ≤ (que s).length

theorem not_buildable {p : List UInt8 × Int16} (h : Unallocatable p) : ¬ Buildable p := by
  rintro ⟨h0, h1, -⟩
  have h4 : (headTotalLen : Int) = 4 := rfl
  unfold Unallocatable at h
  omega

/-- The constructor of a node that is neither built nor too big to allocate. -/
theorem new_outOfBounds {init : Nat → UInt8} {p : List UInt8 × Int16} {msgid : Int16}
    (hp : ¬ Buildable p) (hp' : ¬ Unallocatable p) :
    SendNode.new init p.1 p.2 msgid = .error .outOfBounds := by
  unfold Buildable at hp
  unfold Unallocatable at hp'
  by_cases hneg : p.2.toInt < 0
  · exact sendNode_outOfBounds (by omega) hneg
  · exact sendNode_overread (by omega) (by omega) (by omega)

namespace SendRules

section Send

variable (hr : SendRules step que payload) {s : σ} {e : ε} {p : List UInt8 × Int16}
  (he : payload e = some p) (h : (que s).length ≤ maxSendque)

include hr he h

theorem push (hp : Buildable p) : ∃ t n, step s e = some t ∧ que t = que s ++ [n] := by
  obtain ⟨init, msgid, hok, -, -⟩ := hr.made he h
  obtain ⟨n, hn, -⟩ := @sendNode_ok init p.1 p.2 msgid hp.1 hp.2.1 hp.2.2
  obtain ⟨t, ht, hque⟩ := hok n hn
  exact ⟨t, n, ht, hque⟩

theorem throws (hp : Unallocatable p) : step s e = some s := by
  obtain ⟨init, msgid, -, hthrows, -⟩ := hr.made he h
  exact hthrows (sendNode_throws hp)

theorem fault (hp : ¬ Buildable p) (hp' : ¬ Unallocatable p) : step s e = none := by
  obtain ⟨init, msgid, -, -, hfault⟩ := hr.made he h
  exact hfault (new_outOfBounds hp hp')

end Send

/-- One step: the queue grows by a node that could be built, if it is not over the cap. -/
theorem length_step (hr : SendRules step que payload) {s t : σ} {e : ε} (h : step s e = some t) :
    (que t).length ≤ (que s).length ∨
      (que t).length = (que s).length + 1 ∧ (que s).length ≤ maxSendque ∧
        ∃ p, payload e = some p ∧ Buildable p := by
  cases he : payload e with
  | none => exact Or.inl (hr.other he h)
  | some p =>
    by_cases hover : maxSendque < (que s).length
    · obtain rfl := Option.some.inj ((hr.refused he hover).symm.trans h)
      exact Or.inl le_rfl
    have hle := not_lt.mp hover
    by_cases hbuild : Buildable p
    · obtain ⟨u, n, hu, hque⟩ := hr.push he hle hbuild
      obtain rfl := Option.some.inj (hu.symm.trans h)
      refine Or.inr ⟨?_, hle, p, rfl, hbuild⟩
      rw [hque, List.length_append, List.length_singleton]
    by_cases hthrow : Unallocatable p
    · obtain rfl := Option.some.inj ((hr.throws he hle hthrow).symm.trans h)
      exact Or.inl le_rfl
    · rw [hr.fault he hle hbuild hthrow] at h
      cases h

theorem length_le (hr : SendRules step que payload) {s₀ s : σ} {es : List ε}
    (h0 : (que s₀).length = 0) (h : run step s₀ es = some s) : (que s).length ≤ maxSendque + 1 := by
  refine run_invariant (I := fun u => (que u).length ≤ maxSendque + 1) ?_ (by omega) h
  intro u e v hu hstep
  rcases hr.length_step hstep with hle | ⟨hlen, hle, -⟩
  · exact hle.trans hu
  · omega

theorem withinCap_step (hr : SendRules step que payload) (s : σ) (e : ε) (t : σ)
    (hs : (que s).length ≤ maxSendque) (hC : WithinCap que payload s e) (h : step s e = some t) :
    (que t).length ≤ maxSendque := by
  rcases hr.length_step h with hle | ⟨hlen, -, p, hp, hbuild⟩
  · exact hle.trans hs
  · have hne : (que s).length ≠ maxSendque := fun hcap =>
      not_buildable ((hC p hp).1 hcap) hbuild
    omega

/-- Up to the cap, a `Send` does as it should exactly when it is within the cap. -/
theorem sendCapped_iff (hr : SendRules step que payload) (s : σ) (e : ε)
    (hs : (que s).length ≤ maxSendque) :
    ((payload e).isSome → SendCapped que s (step s e)) ↔ WithinCap que payload s e := by
  unfold WithinCap
  cases he : payload e with
  | none => simp
  | some p =>
    simp only [Option.isSome_some, true_implies, Option.mem_def, Option.some.injEq, forall_eq']
    have hgrow : ∀ {t n}, que t = que s ++ [n] → t ≠ s := by
      rintro t n hque rfl
      have := congrArg List.length hque
      simp at this
    refine and_congr (forall_congr' fun _ => ?_) (forall_congr' fun _ => ?_)
    · constructor
      · intro hsame
        by_contra hthrow
        by_cases hbuild : Buildable p
        · obtain ⟨t, n, ht, hque⟩ := hr.push he hs hbuild
          exact hgrow hque (Option.some.inj (ht.symm.trans hsame))
        · rw [hr.fault he hs hbuild hthrow] at hsame
          cases hsame
      · exact hr.throws he hs
    · constructor
      · rintro ⟨t, n, ht, hque⟩
        by_contra hbuild
        by_cases hthrow : Unallocatable p
        · exact hgrow hque (Option.some.inj (ht.symm.trans (hr.throws he hs hthrow)))
        · rw [hr.fault he hs hbuild hthrow] at ht
          cases ht
      · exact hr.push he hs

/-- A run keeps to the cap exactly when its steps do. -/
theorem keepsCap_iff (hr : SendRules step que payload) {s₀ : σ} (h0 : (que s₀).length = 0)
    (es : List ε) : KeepsCap step que payload s₀ es ↔ Meets step (WithinCap que payload) s₀ es :=
  meets_iff_each hr.withinCap_step hr.sendCapped_iff (by omega)

/-- As many messages as a queue holds, up to one more than the cap. -/
theorem run_fill (hr : SendRules step que payload) {s₀ : σ} (h0 : (que s₀).length = 0) {e : ε}
    {p : List UInt8 × Int16} (he : payload e = some p) (hp : Buildable p) {k : Nat}
    (hk : k ≤ maxSendque + 1) :
    ∃ s, run step s₀ (List.replicate k e) = some s ∧ (que s).length = k := by
  induction k with
  | zero => exact ⟨s₀, rfl, h0⟩
  | succ k ih =>
    obtain ⟨s, hs, hlen⟩ := ih (by omega)
    obtain ⟨t, n, ht, hque⟩ := hr.push he (s := s) (by omega) hp
    refine ⟨t, ?_, ?_⟩
    · rw [List.replicate_succ']
      exact run_snoc hs ht
    · rw [hque, List.length_append, hlen, List.length_singleton]

end SendRules

end Cap

/-! ## `logicServer` -/

namespace LogicServer

/-- The bytes behind the pointer and the length that a `Send` gives to the constructor. -/
def SendEvent.payload : SendEvent → Option (List UInt8 × Int16)
  | .send msg maxLength _ => some (msg, maxLength)
  | .sendString msg _ => some (msg ++ [0], short msg.length)
  | .written _ => none
  | .failed _ _ => none

theorem step_of_payload (s : SendSide) {e : SendEvent} {p : List UInt8 × Int16}
    (he : e.payload = some p) :
    ∃ msgid, s.step e = s.sendNode (SendNode.new (fun _ => 0) p.1 p.2 msgid) := by
  cases e with
  | send msg maxLength msgid =>
    obtain rfl := Option.some.inj he
    exact ⟨msgid, rfl⟩
  | sendString msg msgid =>
    obtain rfl := Option.some.inj he
    exact ⟨msgid, rfl⟩
  | written i => cases he
  | failed i closeThrows => cases he

theorem sendRules : SendRules SendSide.step SendSide.sendQue SendEvent.payload where
  refused {s e p} he h := by
    obtain ⟨msgid, hstep⟩ := step_of_payload s he
    rw [hstep]
    exact if_pos h
  made {s e p} he h := by
    obtain ⟨msgid, hstep⟩ := step_of_payload s he
    rw [hstep]
    refine ⟨fun _ => 0, msgid, fun n hn => ?_, fun hn => ?_, fun hn => ?_⟩
    · rw [hn]
      exact sendNode_push h
    · rw [hn]
      exact if_neg (not_lt.mpr h)
    · rw [hn]
      exact if_neg (not_lt.mpr h)
  other {s e t} he h := by
    cases e with
    | send msg maxLength msgid => cases he
    | sendString msg msgid => cases he
    | written i =>
      obtain ⟨-, h⟩ := step_written h
      obtain ⟨node, rest, hq, ⟨-, rfl⟩ | ⟨next, more, -, rfl⟩⟩ := handleWrite_cases h
      · exact hq ▸ Nat.le_succ rest.length
      · exact hq ▸ Nat.le_succ rest.length
    | failed i closeThrows =>
      obtain ⟨-, rfl⟩ := step_failed h
      cases closeThrows <;> exact le_rfl

end LogicServer

/-! ## `BoostCoServer` -/

namespace BoostCoServer

/-- The bytes behind the pointer and the length that a `Send` gives to the constructor. -/
def SendEvent.payload : SendEvent → Option (List UInt8 × Int16)
  | .send msg maxLength _ => some (msg, maxLength)
  | .sendString msg _ => some (msg ++ [0], short msg.length)
  | .written _ => none
  | .startPending _ => none
  | .failed _ => none

theorem step_of_payload (heap : Nat → Nat → UInt8) (s : SendSide) {e : SendEvent}
    {p : List UInt8 × Int16} (he : e.payload = some p) :
    ∃ msgid, s.step heap e = s.send heap p.1 p.2 msgid := by
  cases e with
  | send msg maxLength msgid =>
    obtain rfl := Option.some.inj he
    exact ⟨msgid, rfl⟩
  | sendString msg msgid =>
    obtain rfl := Option.some.inj he
    exact ⟨msgid, rfl⟩
  | written i => cases he
  | startPending i => cases he
  | failed i => cases he

theorem sendRules (heap : Nat → Nat → UInt8) :
    SendRules (SendSide.step heap) SendSide.sendQue SendEvent.payload where
  refused {s e p} he h := by
    obtain ⟨msgid, hstep⟩ := step_of_payload heap s he
    rw [hstep]
    exact if_pos h
  made {s e p} he h := by
    obtain ⟨msgid, hstep⟩ := step_of_payload heap s he
    rw [hstep]
    refine ⟨heap s.accepted.length, msgid, fun n hn => send_push h hn, fun hn => ?_, fun hn => ?_⟩
    · unfold SendSide.send
      rw [hn]
      exact if_neg (not_lt.mpr h)
    · unfold SendSide.send
      rw [hn]
      exact if_neg (not_lt.mpr h)
  other {s e t} he h := by
    cases e with
    | send msg maxLength msgid => cases he
    | sendString msg msgid => cases he
    | written i =>
      obtain ⟨-, node, rest, hq, ⟨-, rfl⟩ | ⟨next, more, rfl, rfl⟩⟩ := written_cases h
      · exact Nat.zero_le _
      · exact hq ▸ Nat.le_succ (next :: more).length
    | startPending i =>
      obtain ⟨n, -, rfl⟩ := startPending_cases h
      exact le_rfl
    | failed i =>
      obtain ⟨-, rfl⟩ := failed_cases h
      exact le_rfl

end BoostCoServer

/-! ## Both servers -/

/-- **What the cap is**: one node more than `MAX_SENDQUE`. -/
theorem sendQue_length_le :
    (∀ es s, run LogicServer.SendSide.step .empty es = some s →
      s.sendQue.length ≤ maxSendque + 1) ∧
    ∀ heap es s, run (BoostCoServer.SendSide.step heap) .empty es = some s →
      s.sendQue.length ≤ maxSendque + 1 :=
  ⟨fun _ _ h => LogicServer.sendRules.length_le rfl h,
    fun heap _ _ h => (BoostCoServer.sendRules heap).length_le rfl h⟩

/-- **When the sessions keep to the cap**, for every run `es` of the send side of `logicServer` and
every run `fs` of that of `BoostCoServer`. -/
theorem send_cap_iff (es : List LogicServer.SendEvent) (heap : Nat → Nat → UInt8)
    (fs : List BoostCoServer.SendEvent) :
    (KeepsCap LogicServer.SendSide.step LogicServer.SendSide.sendQue
        LogicServer.SendEvent.payload .empty es ↔
      Meets LogicServer.SendSide.step
        (WithinCap LogicServer.SendSide.sendQue LogicServer.SendEvent.payload) .empty es) ∧
    (KeepsCap (BoostCoServer.SendSide.step heap) BoostCoServer.SendSide.sendQue
        BoostCoServer.SendEvent.payload .empty fs ↔
      Meets (BoostCoServer.SendSide.step heap)
        (WithinCap BoostCoServer.SendSide.sendQue BoostCoServer.SendEvent.payload) .empty fs) :=
  ⟨LogicServer.sendRules.keepsCap_iff rfl es, (BoostCoServer.sendRules heap).keepsCap_iff rfl fs⟩

/-- A thousand and one messages of one byte, none of them written yet. -/
theorem send_over_cap :
    (¬ ∀ es, KeepsCap LogicServer.SendSide.step LogicServer.SendSide.sendQue
      LogicServer.SendEvent.payload .empty es) ∧
    ∀ heap, ¬ ∀ es, KeepsCap (BoostCoServer.SendSide.step heap) BoostCoServer.SendSide.sendQue
      BoostCoServer.SendEvent.payload .empty es := by
  have hp : Buildable ([97], 1) := by
    unfold Buildable
    decide
  constructor
  · intro h
    obtain ⟨s, hs, hlen⟩ := LogicServer.sendRules.run_fill
      (rfl : LogicServer.SendSide.empty.sendQue.length = 0) (e := .send [97] 1 1001) rfl hp le_rfl
    have := (h (List.replicate (maxSendque + 1) (.send [97] 1 1001)) _ [] s
      (List.append_nil _).symm hs).1
    omega
  · intro heap h
    obtain ⟨s, hs, hlen⟩ := (BoostCoServer.sendRules heap).run_fill
      (rfl : BoostCoServer.SendSide.empty.sendQue.length = 0) (e := .send [97] 1 1001) rfl hp le_rfl
    have := (h (List.replicate (maxSendque + 1) (.send [97] 1 1001)) _ [] s
      (List.append_nil _).symm hs).1
    omega

end AsioLearn
