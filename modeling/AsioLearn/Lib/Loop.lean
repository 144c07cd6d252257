import AsioLearn.Lib.Hoare
import Mathlib.Logic.Relation
import Mathlib.Tactic.TypeStar

/-!
# While loops that can be left from their body

`while (cond s) s = body s;`, where the body may also leave the loop altogether (a `return`, a
`break`, an exception): it then gives `.error` of what it leaves with. `iterate` runs the loop
with fuel; `Heads` is the set of states in which the condition is evaluated.

Results:
* `heads_invariant`: an invariant of the body holds at every loop head.
* `iterate_ends`: what the body preserves or leaves with holds of what the loop is left with.
* `iterate_alike`: the same for two loops run side by side.
* `iterate_total`: the total-correctness rule. With an invariant and a variant the loop ends within
  the variant's fuel, and in the postcondition.
* `iterate_mono`: more fuel does not change an answer.
-/

namespace AsioLearn.Lib.Loop

variable {σ ε : Type*}

/-- Run the loop, evaluating the condition at most `fuel` times; `none` when the fuel is used up. -/
def iterate (cond : σ → Bool) (body : σ → Except ε σ) : Nat → σ → Option (Except ε σ)
  | 0, _ => none
  | fuel + 1, s =>
    if cond s then
      match body s with
      | .ok s' => iterate cond body fuel s'
      | .error e => some (.error e)
    else some (.ok s)

/-- The loop heads reached from `s₀`. -/
inductive Heads (cond : σ → Bool) (body : σ → Except ε σ) (s₀ : σ) : σ → Prop
  | start : Heads cond body s₀ s₀
  | next {s s' : σ} (h : Heads cond body s₀ s) (hc : cond s = true) (hb : body s = .ok s') :
      Heads cond body s₀ s'

variable {cond : σ → Bool} {body : σ → Except ε σ}

theorem iterate_exit {fuel : Nat} {s : σ} (hc : cond s = false) :
    iterate cond body (fuel + 1) s = some (.ok s) := by
  simp [iterate, hc]

theorem iterate_error {fuel : Nat} {s : σ} {e : ε} (hc : cond s = true) (hb : body s = .error e) :
    iterate cond body (fuel + 1) s = some (.error e) := by
  simp [iterate, hc, hb]

theorem iterate_next {fuel : Nat} {s s' : σ} (hc : cond s = true) (hb : body s = .ok s') :
    iterate cond body (fuel + 1) s = iterate cond body fuel s' := by
  simp [iterate, hc, hb]

/-- An invariant of the body holds at every loop head. -/
theorem heads_invariant {I : σ → Prop} {s₀ : σ} (h0 : I s₀)
    (hbody : ∀ s s', I s → cond s = true → body s = .ok s' → I s') {s : σ}
    (h : Heads cond body s₀ s) : I s := by
  induction h with
  | start => exact h0
  | next _ hc hb ih => exact hbody _ _ ih hc hb

/-- What the body preserves, or leaves with, holds of what the loop is left with. -/
theorem iterate_ends {I : σ → Prop} {E : ε → Prop}
    (hbody : ∀ s, I s → Hoare.Ends I E (body s)) {r : Except ε σ} :
    ∀ {fuel : Nat} {s : σ}, I s → iterate cond body fuel s = some r → Hoare.Ends I E r
  | 0, _, _, h => by simp [iterate] at h
  | fuel + 1, s, hI, h => by
    have hb := hbody s hI
    unfold iterate at h
    split at h
    · split at h
      · rename_i s' hs
        rw [hs] at hb
        exact iterate_ends hbody hb h
      · rename_i e he
        rw [he] at hb
        obtain rfl := Option.some.inj h
        exact hb
    · obtain rfl := Option.some.inj h
      exact hI

/-- What two bodies preserve, or leave with, side by side holds of what the loops are left with. -/
theorem iterate_alike {R : σ → σ → Prop} {E : ε → ε → Prop}
    (hcond : ∀ s t, R s t → cond t = cond s)
    (hbody : ∀ s t, R s t → Hoare.Alike R E (body s) (body t)) {r : Except ε σ} :
    ∀ {fuel : Nat} {s t : σ}, R s t → iterate cond body fuel s = some r →
      ∃ r', iterate cond body fuel t = some r' ∧ Hoare.Alike R E r r'
  | 0, _, _, _, h => by simp [iterate] at h
  | fuel + 1, s, t, hR, h => by
    have hb := hbody s t hR
    cases hc : cond s with
    | false =>
      rw [iterate_exit hc] at h
      obtain rfl := Option.some.inj h
      exact ⟨_, iterate_exit ((hcond s t hR).trans hc), hR⟩
    | true =>
      have hc' : cond t = true := (hcond s t hR).trans hc
      match hs : body s, ht : body t with
      | .ok s', .ok t' =>
        rw [hs, ht] at hb
        rw [iterate_next hc hs] at h
        rw [iterate_next hc' ht]
        exact iterate_alike hcond hbody hb h
      | .error e, .error e' =>
        rw [hs, ht] at hb
        rw [iterate_error hc hs] at h
        obtain rfl := Option.some.inj h
        exact ⟨_, iterate_error hc' ht, hb⟩
      | .ok s', .error e' =>
        rw [hs, ht] at hb
        exact hb.elim
      | .error e, .ok t' =>
        rw [hs, ht] at hb
        exact hb.elim

/-- **Total correctness.** `I` is the invariant, `μ` the variant; `Q` holds of what the loop is
left with, from its head or from its body. -/
theorem iterate_total {I : σ → Prop} {Q : Except ε σ → Prop} (μ : σ → Nat)
    (hexit : ∀ s, I s → cond s = false → Q (.ok s))
    (hleave : ∀ s e, I s → cond s = true → body s = .error e → Q (.error e))
    (hbody : ∀ s s', I s → cond s = true → body s = .ok s' → I s' ∧ μ s' < μ s) :
    ∀ (fuel : Nat) (s : σ), I s → μ s < fuel → ∃ r, iterate cond body fuel s = some r ∧ Q r
  | 0, _, _, h => absurd h (Nat.not_lt_zero _)
  | fuel + 1, s, hI, hμ => by
    cases hc : cond s with
    | false => exact ⟨_, iterate_exit hc, hexit s hI hc⟩
    | true =>
      cases hb : body s with
      | error e => exact ⟨_, iterate_error hc hb, hleave s e hI hc hb⟩
      | ok s' =>
        obtain ⟨hI', hlt⟩ := hbody s s' hI hc hb
        obtain ⟨r, hr, hQ⟩ := iterate_total μ hexit hleave hbody fuel s' hI' (by omega)
        exact ⟨r, by rw [iterate_next hc hb, hr], hQ⟩

/-- More fuel does not change an answer. -/
theorem iterate_mono {r : Except ε σ} : ∀ {fuel fuel' : Nat} {s : σ}, fuel ≤ fuel' →
    iterate cond body fuel s = some r → iterate cond body fuel' s = some r
  | 0, _, _, _, h => by simp [iterate] at h
  | fuel + 1, 0, _, hle, _ => absurd hle (by omega)
  | fuel + 1, fuel' + 1, s, hle, h => by
    cases hc : cond s with
    | false => rw [iterate_exit hc] at h ⊢; exact h
    | true =>
      cases hb : body s with
      | error e => rw [iterate_error hc hb] at h ⊢; exact h
      | ok s' =>
        rw [iterate_next hc hb] at h ⊢
        exact iterate_mono (by omega) h

end AsioLearn.Lib.Loop
