import AsioLearn.Lib.Loop
import Mathlib.Data.List.Basic

/-!
# Parsers that read records off the front of their input

A parser's loop keeps a message and the input that is left. While there is input, `body` takes one
record from its front and updates the message, or leaves the loop. A chunk `c` of the input
*applies* `f` when, in front of whatever follows, the loop goes from `m` to `f m` by reading it.

Results:
* `Applies.append`, `Applies.flatMap`: chunks behind one another apply their functions in turn.
* `parse_total`: a loop whose records are not empty comes to an end.
* **`parse_applies`**: reading a chunk is applying its function.
* `parse_ends`: what the records preserve holds of what is parsed.
-/

namespace AsioLearn.Lib.Records

open Loop

variable {σ β ε : Type*}

/-- There is input left. -/
def more (s : σ × List β) : Bool := !s.2.isEmpty

/-- The loop, from message `s.1` on input `s.2`. -/
def parse (body : σ × List β → Except ε (σ × List β)) (s : σ × List β) :
    Option (Except ε (σ × List β)) :=
  iterate more body (s.2.length + 1) s

/-- Reading `c` takes the loop from any message `m` to `f m`. -/
def Applies (body : σ × List β → Except ε (σ × List β)) (c : List β) (f : σ → σ) : Prop :=
  ∀ m rest, Heads more body (m, c ++ rest) (f m, rest)

/-- Every record takes at least one element. -/
def Shrinks (body : σ × List β → Except ε (σ × List β)) : Prop :=
  ∀ s t, body s = .ok t → t.2.length < s.2.length

variable {body : σ × List β → Except ε (σ × List β)}

theorem more_append {m : σ} {c : List β} (hc : c ≠ []) (rest : List β) :
    more (m, c ++ rest) = true := by
  obtain ⟨b, bs, rfl⟩ := List.exists_cons_of_ne_nil hc
  rfl

theorem heads_trans {s t u : σ × List β} (hst : Heads more body s t) (htu : Heads more body t u) :
    Heads more body s u := by
  induction htu with
  | start => exact hst
  | next _ hc hb ih => exact ih.next hc hb

/-! ## Chunks -/

theorem Applies.nil : Applies body [] id := fun _ _ => Heads.start

theorem Applies.record {c : List β} {f : σ → σ} (hc : c ≠ [])
    (hb : ∀ m rest, body (m, c ++ rest) = .ok (f m, rest)) : Applies body c f := by
  intro m rest
  exact Heads.start.next (more_append hc rest) (hb m rest)

theorem Applies.append {c d : List β} {f g : σ → σ} (hc : Applies body c f)
    (hd : Applies body d g) : Applies body (c ++ d) (g ∘ f) := by
  intro m rest
  rw [List.append_assoc]
  exact heads_trans (hc m (d ++ rest)) (hd (f m) rest)

/-- A record that is only written under a condition; without it, `f` changes nothing. -/
theorem Applies.ite {p : Prop} [Decidable p] {c : List β} {f : σ → σ} (hc : p → Applies body c f)
    (hf : ¬ p → f = id) : Applies body (if p then c else []) f := by
  by_cases h : p
  · rw [if_pos h]
    exact hc h
  · rw [if_neg h, hf h]
    exact Applies.nil

theorem Applies.flatMap {α : Type*} {enc : α → List β} {f : σ → α → σ} :
    ∀ {xs : List α}, (∀ x ∈ xs, Applies body (enc x) (f · x)) →
      Applies body (xs.flatMap enc) (xs.foldl f)
  | [], _ => Applies.nil
  | x :: xs, h => by
    rw [List.flatMap_cons]
    exact (h x List.mem_cons_self).append
      (Applies.flatMap fun y hy => h y (List.mem_cons_of_mem x hy))

/-! ## The loop -/

theorem parse_nil (m : σ) : parse body (m, []) = some (.ok (m, [])) :=
  iterate_exit rfl

/-- **A parser ends.** -/
theorem parse_total (h : Shrinks body) (s : σ × List β) : ∃ r, parse body s = some r := by
  obtain ⟨r, hr, -⟩ := @iterate_total _ _ more body (fun _ => True) (fun _ => True)
    (fun s => s.2.length) (fun _ _ _ => trivial) (fun _ _ _ _ _ => trivial)
    (fun s t _ _ hb => ⟨trivial, h s t hb⟩) (s.2.length + 1) s trivial (Nat.lt_succ_self _)
  exact ⟨r, hr⟩

theorem parse_next (h : Shrinks body) {s t : σ × List β} (hc : more s = true)
    (hb : body s = .ok t) : parse body s = parse body t := by
  obtain ⟨r, hr⟩ := parse_total h t
  have hlt := h s t hb
  rw [hr, parse, iterate_next hc hb]
  exact iterate_mono (by omega) hr

theorem parse_error {s : σ × List β} {e : ε} (hc : more s = true) (hb : body s = .error e) :
    parse body s = some (.error e) :=
  iterate_error hc hb

theorem parse_heads (h : Shrinks body) {s t : σ × List β} (hst : Heads more body s t) :
    parse body s = parse body t := by
  induction hst with
  | start => rfl
  | next _ hc hb ih => exact ih.trans (parse_next h hc hb)

/-- **Reading a chunk is applying its function.** -/
theorem parse_applies (h : Shrinks body) {c : List β} {f : σ → σ} (hc : Applies body c f) (m : σ)
    (rest : List β) : parse body (m, c ++ rest) = parse body (f m, rest) :=
  parse_heads h (hc m rest)

/-- What every record preserves, or the loop is left with, holds of what is parsed. -/
theorem parse_ends {I : σ → Prop} {E : ε → Prop}
    (hbody : ∀ m input, I m → Hoare.Ends (fun t => I t.1) E (body (m, input))) {m : σ}
    {input : List β} {r : Except ε (σ × List β)} (hm : I m) (h : parse body (m, input) = some r) :
    Hoare.Ends (fun t => I t.1) E r :=
  @iterate_ends _ _ more body (fun t => I t.1) E (fun s hs => hbody s.1 s.2 hs) r _ _ hm h

end AsioLearn.Lib.Records
