import AsioLearn.Lib.Lts

/-!
# A queue with one transmission at a time

The purpose of a send queue, over any type of messages: pushed messages are transmitted one after
the other, the one at the front being in flight, until a transmission fails. `Pipeline` is the
state, `step` what pushing a message and the end of a transmission do to it.

Results:
* `step_complete`, `step_fail`: what the end of a transmission was, and what it leads to.
* `step_sound`: the invariant `Sound`. A transmission is in flight exactly when the queue is not
  empty and none has failed.
-/

namespace AsioLearn.Lib.Pipeline

open AsioLearn.Lib.Lts

variable {α : Type*}

/-- Messages sent, messages queued, and whether the front one is in flight or one has failed. -/
structure State (α : Type*) where
  sent : List α
  queue : List α
  inFlight : Bool
  broken : Bool

inductive Op (α : Type*) where
  | push (a : α)
  | complete
  | fail

/-- A push starts a transmission if the queue was empty; the end of one starts the next. -/
def step (p : State α) : Op α → Option (State α)
  | .push a => some { p with queue := p.queue ++ [a], inFlight := p.inFlight || p.queue.isEmpty }
  | .complete =>
    match p.inFlight, p.queue with
    | true, a :: q => some { p with sent := p.sent ++ [a], queue := q, inFlight := !q.isEmpty }
    | _, _ => none
  | .fail => if p.inFlight then some { p with inFlight := false, broken := true } else none

/-- Nothing pushed yet. -/
def empty : State α := ⟨[], [], false, false⟩

/-- A transmission is in flight exactly when there is something to send and none has failed; a
failed one leaves its message in the queue. -/
structure Sound (p : State α) : Prop where
  busy : p.inFlight = true ↔ p.queue ≠ [] ∧ p.broken = false
  front : p.broken = true → p.queue ≠ []

theorem sound_empty : Sound (empty : State α) := by
  constructor
  · constructor
    · intro h
      cases h
    · intro h
      exact absurd rfl h.1
  · intro h
    cases h

/-! ## One step -/

theorem step_push (p : State α) (a : α) :
    step p (.push a) =
      some { p with queue := p.queue ++ [a], inFlight := p.inFlight || p.queue.isEmpty } := rfl

theorem step_complete {p q : State α} (h : step p .complete = some q) :
    ∃ a rest, p.inFlight = true ∧ p.queue = a :: rest ∧
      q = ⟨p.sent ++ [a], rest, !rest.isEmpty, p.broken⟩ := by
  obtain ⟨sent, queue, inFlight, broken⟩ := p
  cases inFlight with
  | false => cases h
  | true =>
    cases queue with
    | nil => cases h
    | cons a rest => exact ⟨a, rest, rfl, rfl, (Option.some.inj h).symm⟩

theorem step_fail {p q : State α} (h : step p .fail = some q) :
    p.inFlight = true ∧ q = ⟨p.sent, p.queue, false, true⟩ := by
  unfold step at h
  split_ifs at h with hf
  exact ⟨hf, (Option.some.inj h).symm⟩

theorem step_sound (p : State α) (o : Op α) (q : State α) (hp : Sound p)
    (h : step p o = some q) : Sound q := by
  cases o with
  | push a =>
    obtain rfl := Option.some.inj h
    refine ⟨?_, fun _ => List.append_ne_nil_of_right_ne_nil _ (List.cons_ne_nil a [])⟩
    show (p.inFlight || p.queue.isEmpty) = true ↔ p.queue ++ [a] ≠ [] ∧ p.broken = false
    rw [Bool.or_eq_true, hp.busy, List.isEmpty_iff]
    constructor
    · rintro (⟨-, hb⟩ | hq)
      · exact ⟨by simp, hb⟩
      · refine ⟨by simp, ?_⟩
        by_contra hb
        exact hp.front (by simpa using hb) hq
    · rintro ⟨-, hb⟩
      by_cases hq : p.queue = []
      · exact Or.inr hq
      · exact Or.inl ⟨hq, hb⟩
  | complete =>
    obtain ⟨a, rest, hf, hq, rfl⟩ := step_complete h
    have hb := (hp.busy.mp hf).2
    constructor
    · show (!rest.isEmpty) = true ↔ rest ≠ [] ∧ p.broken = false
      simp [hb]
    · intro h
      rw [show p.broken = true from h] at hb
      cases hb
  | fail =>
    obtain ⟨hf, rfl⟩ := step_fail h
    refine ⟨?_, fun _ => (hp.busy.mp hf).1⟩
    constructor
    · intro h
      cases h
    · intro h
      cases h.2

end AsioLearn.Lib.Pipeline
