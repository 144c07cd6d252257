import AsioLearn.Lib.Lts
import Mathlib.Logic.Function.Basic

/-!
# The session registry of both servers (`CServer.cc`)

`HandleAccept` starts the new session and then enters it in `_sessions`; the handlers of a started
session run on the threads of the pool and end in `ClearSession`, which erases it. The accept
handler and any number of pool threads as one transition system over the map and `_mutex`.

* The sessions are numbered in the order in which `StartAccept` makes them. Their uuids are random;
  they are taken to be distinct, so the number stands for the key.
* `ClearSession` takes `_mutex` in `BoostCoServer` and does not in `logicServer`: the parameter
  `locks` says which.
* An insert or an erase takes two steps, its beginning and its end. `writers` are the threads in
  between; when one begins while another is under way the behaviour is undefined, and nothing is
  known of the map from there on (`corrupted`).
* `started`, `inserted`, `finished` and `cleared` record the run: `Start` has been called, the
  session has been entered, its `HandleAccept` is over, a `ClearSession` for it has returned.

Results:
* `step_moves`: what a step can do (`Moves`); the invariants are read off its cases.
* `no_data_race`: with the mutex taken on both sides no two threads change the map at a time;
  `data_race` is a run of the other server in which they do.
* `no_session_leaked`: a session that is finished and cleared is only left registered (`Leaked`)
  where an erase begins before the insert of its session is done or, without the mutex, where two
  threads change the map at a time. In the runs in which neither happens no session is leaked, and
  each such step can lead to a leak.
-/

namespace AsioLearn.CServer

/-- Where `HandleAccept` is. -/
inductive AcceptPc where
  /-- The `async_accept` is outstanding. -/
  | accepting
  /-- Before `new_session->Start()`. -/
  | start
  /-- Before `std::lock_guard lock(_mutex)`. -/
  | lock
  /-- Before `_sessions.insert`. -/
  | insert
  /-- In `_sessions.insert`. -/
  | inserting
  /-- At the end of the scope of `lock`. -/
  | unlock
  /-- Before `StartAccept()`. -/
  | rearm
  deriving DecidableEq, Repr

/-- Where a thread of the pool is in `ClearSession`, called for session `k`. -/
inductive ClearPc where
  | idle
  | enter (k : Nat)
  /-- Before `_sessions.erase`. -/
  | erase (k : Nat)
  /-- In `_sessions.erase`. -/
  | erasing (k : Nat)
  | leave (k : Nat)
  deriving DecidableEq, Repr

/-- The accept handler, or a thread of the pool. -/
inductive Owner where
  | accept
  | pool (i : Nat)
  deriving DecidableEq, Repr

/-- The state of the server; `current` is the session of the accept that is outstanding or being
handled. -/
structure Sys where
  accept : AcceptPc
  current : Nat
  pool : Nat → ClearPc
  /-- Who holds `_mutex`. -/
  owner : Option Owner
  sessions : Nat → Bool
  /-- Who is inserting or erasing. -/
  writers : List Owner
  /-- Two have been doing so at a time. -/
  corrupted : Bool
  started : Nat → Bool
  inserted : Nat → Bool
  finished : Nat → Bool
  cleared : Nat → Bool

/-- The constructor has run. -/
def Sys.init : Sys :=
  ⟨.accepting, 0, fun _ => .idle, none, fun _ => false, [], false, fun _ => false, fun _ => false,
    fun _ => false, fun _ => false⟩

/-- `o` begins to change the map. -/
def Sys.beginWrite (s : Sys) (o : Owner) : Sys :=
  { s with writers := o :: s.writers, corrupted := s.corrupted || !s.writers.isEmpty }

/-- `o` is done with it. -/
def Sys.endWrite (s : Sys) (o : Owner) : Sys :=
  { s with writers := s.writers.filter fun w => decide (w ≠ o) }

/-- The next step of `HandleAccept`. -/
def Sys.acceptStep (s : Sys) : Option Sys :=
  match s.accept with
  | .accepting => none
  | .start => some { s with started := Function.update s.started s.current true, accept := .lock }
  | .lock =>
    if s.owner = none then some { s with owner := some .accept, accept := .insert } else none
  | .insert => some { s.beginWrite .accept with accept := .inserting }
  | .inserting =>
    some { s.endWrite .accept with
      sessions := Function.update s.sessions s.current true,
      inserted := Function.update s.inserted s.current true, accept := .unlock }
  | .unlock => some { s with owner := none, accept := .rearm }
  | .rearm =>
    some { s with finished := Function.update s.finished s.current true,
                  current := s.current + 1, accept := .accepting }

/-- The next step of the `i`-th thread of the pool in `ClearSession`. -/
def Sys.poolStep (locks : Bool) (s : Sys) (i : Nat) : Option Sys :=
  match s.pool i with
  | .idle => none
  | .enter k =>
    if locks then
      if s.owner = none then
        some { s with owner := some (.pool i), pool := Function.update s.pool i (.erase k) }
      else none
    else some { s with pool := Function.update s.pool i (.erase k) }
  | .erase k =>
    some { s.beginWrite (.pool i) with pool := Function.update s.pool i (.erasing k) }
  | .erasing k =>
    some { s.endWrite (.pool i) with sessions := Function.update s.sessions k false,
                                     pool := Function.update s.pool i (.leave k) }
  | .leave k =>
    some { s with owner := if locks then none else s.owner,
                  cleared := Function.update s.cleared k true,
                  pool := Function.update s.pool i .idle }

/-- Who takes the next step. -/
inductive Event where
  /-- The `async_accept` completes. -/
  | accepted (error : Bool)
  | accept
  /-- A handler of session `k`, on thread `i`, calls `ClearSession`. -/
  | clear (i k : Nat)
  | pool (i : Nat)
  deriving DecidableEq, Repr

/-- One step of the server. -/
def Sys.step (locks : Bool) (s : Sys) : Event → Option Sys
  | .accepted error =>
    match s.accept with
    | .accepting => some { s with accept := if error then .rearm else .start }
    | _ => none
  | .accept => s.acceptStep
  | .clear i k =>
    match s.pool i with
    | .idle =>
      if s.started k then some { s with pool := Function.update s.pool i (.enter k) } else none
    | _ => none
  | .pool i => s.poolStep locks i

end AsioLearn.CServer

namespace AsioLearn

/-- The registry of `BoostCoServer`: `ClearSession` takes the mutex. -/
abbrev BoostCoServer.registryStep := CServer.Sys.step true

/-- The registry of `logicServer`: `ClearSession` does not. -/
abbrev LogicServer.registryStep := CServer.Sys.step false

end AsioLearn

namespace AsioLearn.CServer

open Lib.Lts

/-- A session whose `HandleAccept` is over and which has been cleared is still registered, or may
be: of a corrupted map nothing is known. -/
def Leaked (s : Sys) : Prop :=
  ∃ k, s.finished k = true ∧ s.cleared k = true ∧ (s.sessions k = true ∨ s.corrupted = true)

/-- The session whose erase is the next step. -/
def ClearPc.toErase : ClearPc → Option Nat
  | .erase k => some k
  | _ => none

/-- The step begins no erase of a session that has not been inserted. -/
def InsertFirst (s : Sys) : Event → Prop
  | .pool i => ∀ k ∈ (s.pool i).toErase, s.inserted k = true
  | _ => True

/-- The step begins no insert or erase while another is under way. -/
def Alone (s : Sys) : Event → Prop
  | .accept => s.accept = .insert → s.writers = []
  | .pool i => ∀ k ∈ (s.pool i).toErase, s.writers = []
  | _ => True

/-- A step that can lead to no leak. With the mutex on both sides a step is `Alone` anyhow. -/
def Orderly (locks : Bool) (s : Sys) (e : Event) : Prop :=
  InsertFirst s e ∧ (locks = false → Alone s e)

variable {locks : Bool}

instance decidableInsertFirst (s : Sys) : DecidablePred (InsertFirst s)
  | .pool i => inferInstanceAs (Decidable (∀ k ∈ (s.pool i).toErase, s.inserted k = true))
  | .accepted _ | .accept | .clear _ _ => isTrue trivial

instance decidableAlone (s : Sys) : DecidablePred (Alone s)
  | .accept => inferInstanceAs (Decidable (s.accept = .insert → s.writers = []))
  | .pool i => inferInstanceAs (Decidable (∀ k ∈ (s.pool i).toErase, s.writers = []))
  | .accepted _ | .clear _ _ => isTrue trivial

instance (s : Sys) (e : Event) : Decidable (Orderly locks s e) :=
  inferInstanceAs (Decidable (_ ∧ (_ → _)))

/-! ## What a step can do -/

/-- `Sys.step` as a relation, one rule for each statement. -/
inductive Moves (locks : Bool) (s : Sys) : Event → Sys → Prop where
  | accepted (error : Bool) (ha : s.accept = .accepting) :
      Moves locks s (.accepted error) { s with accept := if error then .rearm else .start }
  | start (ha : s.accept = .start) :
      Moves locks s .accept
        { s with started := Function.update s.started s.current true, accept := .lock }
  | lock (ha : s.accept = .lock) (ho : s.owner = none) :
      Moves locks s .accept { s with owner := some .accept, accept := .insert }
  | insert (ha : s.accept = .insert) :
      Moves locks s .accept { s.beginWrite .accept with accept := .inserting }
  | inserting (ha : s.accept = .inserting) :
      Moves locks s .accept
        { s.endWrite .accept with
          sessions := Function.update s.sessions s.current true,
          inserted := Function.update s.inserted s.current true, accept := .unlock }
  | unlock (ha : s.accept = .unlock) :
      Moves locks s .accept { s with owner := none, accept := .rearm }
  | rearm (ha : s.accept = .rearm) :
      Moves locks s .accept
        { s with finished := Function.update s.finished s.current true,
                 current := s.current + 1, accept := .accepting }
  | clear (i k : Nat) (hi : s.pool i = .idle) (hk : s.started k = true) :
      Moves locks s (.clear i k) { s with pool := Function.update s.pool i (.enter k) }
  | enter (i k : Nat) (hi : s.pool i = .enter k) (ho : locks = true → s.owner = none) :
      Moves locks s (.pool i)
        { s with owner := if locks then some (.pool i) else s.owner,
                 pool := Function.update s.pool i (.erase k) }
  | erase (i k : Nat) (hi : s.pool i = .erase k) :
      Moves locks s (.pool i)
        { s.beginWrite (.pool i) with pool := Function.update s.pool i (.erasing k) }
  | erasing (i k : Nat) (hi : s.pool i = .erasing k) :
      Moves locks s (.pool i)
        { s.endWrite (.pool i) with sessions := Function.update s.sessions k false,
                                    pool := Function.update s.pool i (.leave k) }
  | leave (i k : Nat) (hi : s.pool i = .leave k) :
      Moves locks s (.pool i)
        { s with owner := if locks then none else s.owner,
                 cleared := Function.update s.cleared k true,
                 pool := Function.update s.pool i .idle }

theorem accept_moves {s t : Sys} (h : s.acceptStep = some t) : Moves locks s .accept t := by
  unfold Sys.acceptStep at h
  split at h
  · cases h
  · next ha =>
    obtain rfl := Option.some.inj h
    exact .start ha
  · next ha =>
    split_ifs at h with ho
    obtain rfl := Option.some.inj h
    exact .lock ha ho
  · next ha =>
    obtain rfl := Option.some.inj h
    exact .insert ha
  · next ha =>
    obtain rfl := Option.some.inj h
    exact .inserting ha
  · next ha =>
    obtain rfl := Option.some.inj h
    exact .unlock ha
  · next ha =>
    obtain rfl := Option.some.inj h
    exact .rearm ha

theorem pool_moves {s t : Sys} {i : Nat} (h : s.poolStep locks i = some t) :
    Moves locks s (.pool i) t := by
  unfold Sys.poolStep at h
  split at h
  · cases h
  · next k hi =>
    cases locks with
    | true =>
      simp only [if_true] at h
      split_ifs at h with ho
      obtain rfl := Option.some.inj h
      exact .enter i k hi fun _ => ho
    | false =>
      obtain rfl := Option.some.inj h
      exact .enter i k hi fun hl => by cases hl
  · next k hi =>
    obtain rfl := Option.some.inj h
    exact .erase i k hi
  · next k hi =>
    obtain rfl := Option.some.inj h
    exact .erasing i k hi
  · next k hi =>
    obtain rfl := Option.some.inj h
    exact .leave i k hi

theorem step_moves {s t : Sys} {e : Event} (h : s.step locks e = some t) : Moves locks s e t := by
  cases e with
  | accepted error =>
    simp only [Sys.step] at h
    split at h
    · next ha =>
      obtain rfl := Option.some.inj h
      exact .accepted error ha
    · cases h
  | accept => exact accept_moves h
  | clear i k =>
    simp only [Sys.step] at h
    split at h
    · next hi =>
      split_ifs at h with hk
      obtain rfl := Option.some.inj h
      exact .clear i k hi hk
    · cases h
  | pool i => exact pool_moves h

theorem toErase_eq {pc : ClearPc} {k : Nat} : k ∈ pc.toErase ↔ pc = .erase k := by
  cases pc <;> simp [ClearPc.toErase, eq_comm]

/-! ## What holds in every run -/

/-- `Start` has been called and the insert is still to come. -/
def AcceptPc.Pending (pc : AcceptPc) : Prop := pc = .lock ∨ pc = .insert ∨ pc = .inserting

/-- The insert has been done. -/
def AcceptPc.Past (pc : AcceptPc) : Prop := pc = .unlock ∨ pc = .rearm

/-- In the scope of `lock`. -/
def AcceptPc.Inside (pc : AcceptPc) : Prop := pc = .insert ∨ pc = .inserting ∨ pc = .unlock

/-- In `ClearSession`, called for `k`. -/
def ClearPc.For (pc : ClearPc) (k : Nat) : Prop :=
  pc = .enter k ∨ pc = .erase k ∨ pc = .erasing k ∨ pc = .leave k

/-- Behind the `lock_guard`, where there is one. -/
def ClearPc.Inside (pc : ClearPc) : Prop := ∃ k, pc = .erase k ∨ pc = .erasing k ∨ pc = .leave k

/-- A session is inserted in its own `HandleAccept`, and cleared only after it was started. -/
structure Tracked (s : Sys) : Prop where
  inserted_of_started : ∀ k, s.started k = true →
    s.inserted k = true ∨ (k = s.current ∧ s.accept.Pending)
  inserted_once : ∀ k, s.inserted k = true → k < s.current ∨ (k = s.current ∧ s.accept.Past)
  started_of_clear : ∀ i k, (s.pool i).For k → s.started k = true
  finished_of_lt : ∀ k, k < s.current → s.finished k = true

theorem tracked_init : Tracked Sys.init where
  inserted_of_started k h := by cases h
  inserted_once k h := by cases h
  started_of_clear i k h := by rcases h with h | h | h | h <;> cases h
  finished_of_lt k h := absurd h (Nat.not_lt_zero k)

theorem update_true_iff {f : Nat → Bool} {c k : Nat} :
    Function.update f c true k = true ↔ k = c ∨ f k = true := by
  by_cases h : k = c
  · simp [h]
  · simp [h, Function.update_of_ne]

theorem Tracked.inserted_of_not_pending {s : Sys} (hs : Tracked s) (ha : ¬ s.accept.Pending)
    {k : Nat} (hk : s.started k = true) : s.inserted k = true :=
  (hs.inserted_of_started k hk).resolve_right fun h => ha h.2

theorem Tracked.lt_of_not_past {s : Sys} (hs : Tracked s) (ha : ¬ s.accept.Past) {k : Nat}
    (hk : s.inserted k = true) : k < s.current :=
  (hs.inserted_once k hk).resolve_right fun h => ha h.2

/-- A step of thread `i` to `pc`. -/
theorem Tracked.update_pool {s t : Sys} (hs : Tracked s) {i : Nat} {pc : ClearPc}
    (hpc : ∀ k, pc.For k → s.started k = true) (ha : t.accept = s.accept)
    (hc : t.current = s.current) (hst : t.started = s.started) (hin : t.inserted = s.inserted)
    (hf : t.finished = s.finished) (hp : t.pool = Function.update s.pool i pc) : Tracked t where
  inserted_of_started := by
    rw [ha, hc, hst, hin]
    exact hs.inserted_of_started
  inserted_once := by
    rw [ha, hc, hin]
    exact hs.inserted_once
  started_of_clear j k h := by
    rw [hp, Function.update_apply] at h
    rw [hst]
    split_ifs at h
    · exact hpc k h
    · exact hs.started_of_clear j k h
  finished_of_lt := by
    rw [hc, hf]
    exact hs.finished_of_lt

theorem step_tracked (s : Sys) (e : Event) (t : Sys) (hs : Tracked s)
    (h : s.step locks e = some t) : Tracked t := by
  cases step_moves h with
  | accepted error ha =>
    refine ⟨fun k hk => Or.inl ?_, fun k hk => Or.inl ?_, hs.started_of_clear, hs.finished_of_lt⟩
    · exact hs.inserted_of_not_pending (by simp [AcceptPc.Pending, ha]) hk
    · exact hs.lt_of_not_past (by simp [AcceptPc.Past, ha]) hk
  | start ha =>
    refine ⟨fun k hk => ?_, fun k hk => Or.inl ?_, fun i k hk => ?_, hs.finished_of_lt⟩
    · rcases update_true_iff.mp hk with hk | hk
      · exact Or.inr ⟨hk, Or.inl rfl⟩
      · exact Or.inl (hs.inserted_of_not_pending (by simp [AcceptPc.Pending, ha]) hk)
    · exact hs.lt_of_not_past (by simp [AcceptPc.Past, ha]) hk
    · exact update_true_iff.mpr (Or.inr (hs.started_of_clear i k hk))
  | lock ha _ =>
    refine ⟨fun k hk => ?_, fun k hk => Or.inl ?_, hs.started_of_clear, hs.finished_of_lt⟩
    · exact (hs.inserted_of_started k hk).imp_right fun h => ⟨h.1, Or.inr (Or.inl rfl)⟩
    · exact hs.lt_of_not_past (by simp [AcceptPc.Past, ha]) hk
  | insert ha =>
    refine ⟨fun k hk => ?_, fun k hk => Or.inl ?_, hs.started_of_clear, hs.finished_of_lt⟩
    · exact (hs.inserted_of_started k hk).imp_right fun h => ⟨h.1, Or.inr (Or.inr rfl)⟩
    · exact hs.lt_of_not_past (by simp [AcceptPc.Past, ha]) hk
  | inserting ha =>
    refine ⟨fun k hk => Or.inl (update_true_iff.mpr ?_), fun k hk => ?_, hs.started_of_clear,
      hs.finished_of_lt⟩
    · rcases hs.inserted_of_started k hk with hk | ⟨hk, -⟩
      · exact Or.inr hk
      · exact Or.inl hk
    · rcases update_true_iff.mp hk with hk | hk
      · exact Or.inr ⟨hk, Or.inl rfl⟩
      · exact Or.inl (hs.lt_of_not_past (by simp [AcceptPc.Past, ha]) hk)
  | unlock ha =>
    refine ⟨fun k hk => Or.inl ?_, fun k hk => ?_, hs.started_of_clear, hs.finished_of_lt⟩
    · exact hs.inserted_of_not_pending (by simp [AcceptPc.Pending, ha]) hk
    · exact (hs.inserted_once k hk).imp_right fun h => ⟨h.1, Or.inr rfl⟩
  | rearm ha =>
    refine ⟨fun k hk => Or.inl ?_, fun k hk => Or.inl ?_, hs.started_of_clear, fun k hk => ?_⟩
    · exact hs.inserted_of_not_pending (by simp [AcceptPc.Pending, ha]) hk
    · rcases hs.inserted_once k hk with hk | ⟨rfl, -⟩
      · exact Nat.lt_succ_of_lt hk
      · exact Nat.lt_succ_self s.current
    · rcases Nat.lt_succ_iff_lt_or_eq.mp hk with hk | hk
      · exact update_true_iff.mpr (Or.inr (hs.finished_of_lt k hk))
      · exact update_true_iff.mpr (Or.inl hk)
  | clear i k _ hk =>
    refine hs.update_pool (fun l hl => ?_) rfl rfl rfl rfl rfl rfl
    rcases hl with hl | hl | hl | hl <;> cases hl
    exact hk
  | enter i k hi _ =>
    refine hs.update_pool (fun l hl => ?_) rfl rfl rfl rfl rfl rfl
    rcases hl with hl | hl | hl | hl <;> cases hl
    exact hs.started_of_clear i k (Or.inl hi)
  | erase i k hi =>
    refine hs.update_pool (fun l hl => ?_) rfl rfl rfl rfl rfl rfl
    rcases hl with hl | hl | hl | hl <;> cases hl
    exact hs.started_of_clear i k (Or.inr (Or.inl hi))
  | erasing i k hi =>
    refine hs.update_pool (fun l hl => ?_) rfl rfl rfl rfl rfl rfl
    rcases hl with hl | hl | hl | hl <;> cases hl
    exact hs.started_of_clear i k (Or.inr (Or.inr (Or.inl hi)))
  | leave i k _ =>
    refine hs.update_pool (fun l hl => ?_) rfl rfl rfl rfl rfl rfl
    rcases hl with hl | hl | hl | hl <;> cases hl

/-- Who holds the mutex. -/
structure Held (locks : Bool) (s : Sys) : Prop where
  accept : s.owner = some .accept ↔ s.accept.Inside
  pool : ∀ i, s.owner = some (.pool i) ↔ locks = true ∧ (s.pool i).Inside

theorem held_init : Held locks Sys.init where
  accept := by simp [Sys.init, AcceptPc.Inside]
  pool i := by simp [Sys.init, ClearPc.Inside]

/-- A step of `HandleAccept` on the same side of the lock. -/
theorem Held.update_accept {s t : Sys} (hs : Held locks s) (ho : t.owner = s.owner)
    (ha : t.accept.Inside ↔ s.accept.Inside) (hp : t.pool = s.pool) : Held locks t where
  accept := by
    rw [ho, ha]
    exact hs.accept
  pool := by
    rw [ho, hp]
    exact hs.pool

/-- A step of thread `i` to `pc`, on the same side of the lock. -/
theorem Held.update_pool {s t : Sys} (hs : Held locks s) {i : Nat} {pc : ClearPc}
    (ho : t.owner = s.owner) (ha : t.accept = s.accept)
    (hp : t.pool = Function.update s.pool i pc)
    (hpc : locks = true → (pc.Inside ↔ (s.pool i).Inside)) : Held locks t where
  accept := by
    rw [ho, ha]
    exact hs.accept
  pool j := by
    rw [ho, hp, hs.pool j]
    refine and_congr_right fun hl => ?_
    by_cases hj : j = i
    · subst hj
      rw [Function.update_self]
      exact (hpc hl).symm
    · rw [Function.update_of_ne hj]

theorem step_held (s : Sys) (e : Event) (t : Sys) (hs : Held locks s)
    (h : s.step locks e = some t) : Held locks t := by
  cases step_moves h with
  | accepted error ha =>
    refine hs.update_accept rfl ?_ rfl
    cases error <;> simp [AcceptPc.Inside, ha]
  | start ha => exact hs.update_accept rfl (by simp [AcceptPc.Inside, ha]) rfl
  | lock ha ho =>
    refine ⟨iff_of_true rfl (Or.inl rfl), fun i => iff_of_false ?_ ?_⟩
    · rintro ⟨⟩
    · exact (hs.pool i).not.mp (by simp [ho])
  | insert ha => exact hs.update_accept rfl (by simp [AcceptPc.Inside, ha]) rfl
  | inserting ha => exact hs.update_accept rfl (by simp [AcceptPc.Inside, ha]) rfl
  | unlock ha =>
    have hown := hs.accept.mpr (Or.inr (Or.inr ha))
    refine ⟨iff_of_false ?_ (by simp [AcceptPc.Inside]), fun i => iff_of_false ?_ ?_⟩
    · rintro ⟨⟩
    · rintro ⟨⟩
    · exact (hs.pool i).not.mp (by simp [hown])
  | rearm ha => exact hs.update_accept rfl (by simp [AcceptPc.Inside, ha]) rfl
  | clear i k hi _ =>
    exact hs.update_pool rfl rfl rfl fun _ => by simp [ClearPc.Inside, hi]
  | enter i k hi ho =>
    cases locks with
    | false => exact hs.update_pool rfl rfl rfl fun hl => by cases hl
    | true =>
      have hown := ho rfl
      refine ⟨iff_of_false ?_ (hs.accept.not.mp (by simp [hown])), fun j => ?_⟩
      · rintro ⟨⟩
      · by_cases hj : j = i
        · subst hj
          exact iff_of_true rfl ⟨rfl, k, Or.inl (Function.update_self ..)⟩
        · refine iff_of_false (fun h => hj (Owner.pool.inj (Option.some.inj h)).symm) ?_
          have hout := (hs.pool j).not.mp (by simp [hown])
          simpa only [Function.update_of_ne hj] using hout
  | erase i k hi =>
    exact hs.update_pool rfl rfl rfl fun _ => by simp [ClearPc.Inside, hi]
  | erasing i k hi =>
    exact hs.update_pool rfl rfl rfl fun _ => by simp [ClearPc.Inside, hi]
  | leave i k hi =>
    cases locks with
    | false => exact hs.update_pool rfl rfl rfl fun hl => by cases hl
    | true =>
      have hown := (hs.pool i).mpr ⟨rfl, k, Or.inr (Or.inr hi)⟩
      refine ⟨iff_of_false ?_ (hs.accept.not.mp (by simp [hown])), fun j => iff_of_false ?_ ?_⟩
      · rintro ⟨⟩
      · rintro ⟨⟩
      · by_cases hj : j = i
        · subst hj
          simp [ClearPc.Inside]
        · have hout := (hs.pool j).not.mp (by simp [hown, Ne.symm hj])
          simpa only [Function.update_of_ne hj] using hout

/-- Who is in an insert or an erase. -/
structure Writing (s : Sys) : Prop where
  accept : Owner.accept ∈ s.writers ↔ s.accept = .inserting
  pool : ∀ i, Owner.pool i ∈ s.writers ↔ ∃ k, s.pool i = .erasing k

theorem writing_init : Writing Sys.init where
  accept := by simp [Sys.init]
  pool i := by simp [Sys.init]

/-- A step of `HandleAccept` outside the map. -/
theorem Writing.update_accept {s t : Sys} (hs : Writing s) (hw : t.writers = s.writers)
    (hp : t.pool = s.pool) (ha : t.accept = .inserting ↔ s.accept = .inserting) : Writing t where
  accept := by
    rw [hw, ha]
    exact hs.accept
  pool := by
    rw [hw, hp]
    exact hs.pool

/-- A step of thread `i` outside the map. -/
theorem Writing.update_pool {s t : Sys} (hs : Writing s) {i : Nat} {pc : ClearPc}
    (hw : t.writers = s.writers) (ha : t.accept = s.accept)
    (hp : t.pool = Function.update s.pool i pc) (hi : ∀ k, s.pool i ≠ .erasing k)
    (hpc : ∀ k, pc ≠ .erasing k) : Writing t where
  accept := by
    rw [hw, ha]
    exact hs.accept
  pool j := by
    rw [hw, hp, hs.pool j]
    by_cases hj : j = i
    · subst hj
      rw [Function.update_self]
      exact iff_of_false (fun ⟨k, hk⟩ => hi k hk) fun ⟨k, hk⟩ => hpc k hk
    · rw [Function.update_of_ne hj]

/-- A step of thread `i` into or out of the map. -/
theorem Writing.write_pool {s t : Sys} (hs : Writing s) {i : Nat} {pc : ClearPc}
    (hw : ∀ o, o ∈ t.writers ↔ if o = .pool i then ∃ k, pc = .erasing k else o ∈ s.writers)
    (ha : t.accept = s.accept) (hp : t.pool = Function.update s.pool i pc) : Writing t where
  accept := by
    rw [hw, if_neg (by simp), ha]
    exact hs.accept
  pool j := by
    rw [hw, hp]
    by_cases hj : j = i
    · subst hj
      rw [if_pos rfl, Function.update_self]
    · rw [if_neg (fun h => hj (Owner.pool.inj h)), Function.update_of_ne hj]
      exact hs.pool j

theorem step_writing (s : Sys) (e : Event) (t : Sys) (hs : Writing s)
    (h : s.step locks e = some t) : Writing t := by
  cases step_moves h with
  | accepted error ha => exact hs.update_accept rfl rfl (by cases error <;> simp [ha])
  | start ha => exact hs.update_accept rfl rfl (by simp [ha])
  | lock ha _ => exact hs.update_accept rfl rfl (by simp [ha])
  | insert ha =>
    refine ⟨iff_of_true List.mem_cons_self rfl, fun i => Iff.trans ?_ (hs.pool i)⟩
    exact List.mem_cons.trans (or_iff_right (by simp))
  | inserting ha =>
    refine ⟨iff_of_false (by simp [Sys.endWrite]) (by simp), fun i => Iff.trans ?_ (hs.pool i)⟩
    simp [Sys.endWrite]
  | unlock ha => exact hs.update_accept rfl rfl (by simp [ha])
  | rearm ha => exact hs.update_accept rfl rfl (by simp [ha])
  | clear i k hi _ =>
    exact hs.update_pool rfl rfl rfl (by simp [hi]) fun _ => ClearPc.noConfusion
  | enter i k hi _ =>
    exact hs.update_pool rfl rfl rfl (by simp [hi]) fun _ => ClearPc.noConfusion
  | erase i k hi =>
    refine hs.write_pool (fun o => ?_) rfl rfl
    by_cases ho : o = .pool i <;> simp [Sys.beginWrite, ho]
  | erasing i k hi =>
    refine hs.write_pool (fun o => ?_) rfl rfl
    by_cases ho : o = .pool i <;> simp [Sys.endWrite, ho]
  | leave i k hi =>
    exact hs.update_pool rfl rfl rfl (by simp [hi]) fun _ => ClearPc.noConfusion

/-- All that holds in every run. -/
structure Ok (locks : Bool) (s : Sys) : Prop where
  tracked : Tracked s
  held : Held locks s
  writing : Writing s

theorem ok_init : Ok locks Sys.init := ⟨tracked_init, held_init, writing_init⟩

theorem step_ok (s : Sys) (e : Event) (t : Sys) (hs : Ok locks s) (h : s.step locks e = some t) :
    Ok locks t :=
  ⟨step_tracked s e t hs.tracked h, step_held s e t hs.held h, step_writing s e t hs.writing h⟩

/-- Whoever changes the map has the mutex, where both sides take it. -/
theorem Ok.owner_of_writer {s : Sys} (hs : Ok true s) {o : Owner} (ho : o ∈ s.writers) :
    s.owner = some o := by
  cases o with
  | accept => exact hs.held.accept.mpr (Or.inr (Or.inl (hs.writing.accept.mp ho)))
  | pool i =>
    obtain ⟨k, hk⟩ := (hs.writing.pool i).mp ho
    exact (hs.held.pool i).mpr ⟨rfl, k, Or.inr (Or.inl hk)⟩

/-- With the mutex on both sides every step is alone. -/
theorem Ok.alone {s : Sys} (hs : Ok true s) (e : Event) : Alone s e := by
  cases e with
  | accepted _ => trivial
  | accept =>
    intro ha
    refine List.eq_nil_iff_forall_not_mem.mpr fun o ho => ?_
    have hown := hs.owner_of_writer ho
    rw [hs.held.accept.mpr (Or.inl ha)] at hown
    obtain rfl := Option.some.inj hown
    have hin := hs.writing.accept.mp ho
    rw [ha] at hin
    cases hin
  | clear _ _ => trivial
  | pool i =>
    intro k hk
    have hi := toErase_eq.mp hk
    refine List.eq_nil_iff_forall_not_mem.mpr fun o ho => ?_
    have hown := hs.owner_of_writer ho
    rw [(hs.held.pool i).mpr ⟨rfl, k, Or.inl hi⟩] at hown
    obtain rfl := Option.some.inj hown
    obtain ⟨l, hl⟩ := (hs.writing.pool i).mp ho
    rw [hi] at hl
    cases hl

/-- A step that is alone corrupts nothing. -/
theorem alone_corrupted {s t : Sys} {e : Event} (hA : Alone s e) (h : s.step locks e = some t) :
    t.corrupted = s.corrupted := by
  have hfree : s.writers = [] → (s.corrupted || !s.writers.isEmpty) = s.corrupted := by
    intro hw
    simp [hw]
  cases step_moves h with
  | accepted _ _ => rfl
  | start _ => rfl
  | lock _ _ => rfl
  | insert ha => exact hfree (hA ha)
  | inserting _ => rfl
  | unlock _ => rfl
  | rearm _ => rfl
  | clear _ _ _ _ => rfl
  | enter _ _ _ _ => rfl
  | erase i k hi => exact hfree (hA k (toErase_eq.mpr hi))
  | erasing _ _ _ => rfl
  | leave _ _ _ => rfl

/-- **With the mutex on both sides the map has one writer at a time.** -/
theorem no_data_race {es : List Event} {s : Sys}
    (h : run BoostCoServer.registryStep Sys.init es = some s) : s.corrupted = false := by
  refine (run_invariant (I := fun u => Ok true u ∧ u.corrupted = false) ?_ ⟨ok_init, rfl⟩ h).2
  rintro u e v ⟨hu, hc⟩ hstep
  exact ⟨step_ok u e v hu hstep, (alone_corrupted (hu.alone e) hstep).trans hc⟩

/-- In `logicServer` a session can be erased while another is being inserted. -/
theorem data_race : ∃ es s, run LogicServer.registryStep Sys.init es = some s ∧
    s.corrupted = true :=
  ⟨[.accepted false, .accept, .accept, .clear 0 0, .pool 0, .accept, .pool 0], _, rfl, rfl⟩

/-! ## The leak -/

/-- What has been erased was inserted before, and the map is whole. -/
structure Gone (locks : Bool) (s : Sys) : Prop extends Ok locks s where
  whole : s.corrupted = false
  gone : ∀ k, s.cleared k = true ∨ (∃ i, s.pool i = .leave k) →
    s.inserted k = true ∧ s.sessions k = false
  known : ∀ i k, s.pool i = .erasing k → s.inserted k = true

theorem gone_init : Gone locks Sys.init where
  toOk := ok_init
  whole := rfl
  gone k h := by rcases h with h | ⟨i, h⟩ <;> cases h
  known i k h := by cases h

theorem Gone.not_leaked {s : Sys} (hs : Gone locks s) : ¬ Leaked s := by
  rintro ⟨k, -, hc, hr | hr⟩
  · rw [(hs.gone k (Or.inl hc)).2] at hr
    cases hr
  · rw [hs.whole] at hr
    cases hr

/-- A thread that is at `q`, and not by this step, was there before. -/
theorem at_of_update {p : Nat → ClearPc} {i j : Nat} {pc q : ClearPc}
    (h : Function.update p i pc j = q) (hpc : pc ≠ q) : p j = q := by
  by_cases hj : j = i
  · subst hj
    rw [Function.update_self] at h
    exact absurd h hpc
  · rwa [Function.update_of_ne hj] at h

theorem step_gone (s : Sys) (e : Event) (t : Sys) (hs : Gone locks s) (hC : Orderly locks s e)
    (h : s.step locks e = some t) : Gone locks t := by
  have hA : Alone s e := by
    cases locks with
    | true => exact hs.toOk.alone e
    | false => exact hC.2 rfl
  have hok := step_ok s e t hs.toOk h
  have hwhole := (alone_corrupted hA h).trans hs.whole
  cases step_moves h with
  | accepted _ _ => exact ⟨hok, hwhole, hs.gone, hs.known⟩
  | start _ => exact ⟨hok, hwhole, hs.gone, hs.known⟩
  | lock _ _ => exact ⟨hok, hwhole, hs.gone, hs.known⟩
  | insert _ => exact ⟨hok, hwhole, hs.gone, hs.known⟩
  | inserting ha =>
    refine ⟨hok, hwhole, fun k hk => ?_, fun i k hi =>
      update_true_iff.mpr (Or.inr (hs.known i k hi))⟩
    -- what has been erased was inserted before, so it is not the session that is inserted now
    obtain ⟨hin, hout⟩ := hs.gone k hk
    have hlt := hs.tracked.lt_of_not_past (by simp [AcceptPc.Past, ha]) hin
    refine ⟨update_true_iff.mpr (Or.inr hin), ?_⟩
    exact (Function.update_of_ne (Nat.ne_of_lt hlt) ..).trans hout
  | unlock _ => exact ⟨hok, hwhole, hs.gone, hs.known⟩
  | rearm _ => exact ⟨hok, hwhole, hs.gone, hs.known⟩
  | clear i k _ _ =>
    refine ⟨hok, hwhole, fun l hl => hs.gone l (hl.imp_right ?_), fun j l hj =>
      hs.known j l (at_of_update hj (by simp))⟩
    exact fun ⟨j, hj⟩ => ⟨j, at_of_update hj (by simp)⟩
  | enter i k _ _ =>
    refine ⟨hok, hwhole, fun l hl => hs.gone l (hl.imp_right ?_), fun j l hj =>
      hs.known j l (at_of_update hj (by simp))⟩
    exact fun ⟨j, hj⟩ => ⟨j, at_of_update hj (by simp)⟩
  | erase i k hi =>
    refine ⟨hok, hwhole, fun l hl => hs.gone l (hl.imp_right ?_), fun j l hj => ?_⟩
    · exact fun ⟨j, hj⟩ => ⟨j, at_of_update hj (by simp)⟩
    · by_cases hlk : l = k
      · subst hlk
        exact hC.1 l (toErase_eq.mpr hi)
      · exact hs.known j l (at_of_update hj (by simpa using Ne.symm hlk))
  | erasing i k hi =>
    refine ⟨hok, hwhole, fun l hl => ?_, fun j l hj => hs.known j l (at_of_update hj (by simp))⟩
    by_cases hlk : l = k
    · subst hlk
      exact ⟨hs.known i l hi, Function.update_self ..⟩
    · obtain ⟨hin, hout⟩ := hs.gone l (hl.imp_right fun ⟨j, hj⟩ =>
        ⟨j, at_of_update hj (by simpa using Ne.symm hlk)⟩)
      exact ⟨hin, (Function.update_of_ne hlk ..).trans hout⟩
  | leave i k hi =>
    refine ⟨hok, hwhole, fun l hl => hs.gone l ?_, fun j l hj =>
      hs.known j l (at_of_update hj (by simp))⟩
    rcases hl with hl | ⟨j, hj⟩
    · rcases update_true_iff.mp hl with rfl | hl
      · exact Or.inr ⟨i, hi⟩
      · exact Or.inl hl
    · exact Or.inr ⟨j, at_of_update hj (by simp)⟩

/-! ### Where a step that is not orderly leads -/

/-- `HandleAccept` ends with its session cleared, and registered or in a corrupted map. -/
theorem canReach_of_past {s : Sys} (ha : s.accept.Past) (hc : s.cleared s.current = true)
    (hr : s.sessions s.current = true ∨ s.corrupted = true) :
    CanReach (Sys.step locks) Leaked s := by
  have hrearm : ∀ u : Sys, u.accept = .rearm → u.current = s.current → u.cleared = s.cleared →
      u.sessions = s.sessions → u.corrupted = s.corrupted →
      CanReach (Sys.step locks) Leaked u := by
    intro u hu hcur hcl hse hco
    refine .before (e := .accept) (t := { u with
      finished := Function.update u.finished u.current true, current := u.current + 1,
      accept := .accepting }) (by simp only [Sys.step, Sys.acceptStep, hu]) (.here ?_)
    refine ⟨s.current, ?_, (congrFun hcl _).trans hc, ?_⟩
    · rw [← hcur]
      exact Function.update_self ..
    · exact hr.imp (congrFun hse _).trans hco.trans
  rcases ha with ha | ha
  · exact .before (e := .accept) (t := { s with owner := none, accept := .rearm })
      (by simp only [Sys.step, Sys.acceptStep, ha]) (hrearm _ rfl rfl rfl rfl rfl)
  · exact hrearm s ha rfl rfl rfl rfl

/-- The insert comes after the session was cleared, and nothing erases it again. -/
theorem canReach_of_pending {s : Sys} (ha : s.accept.Pending)
    (ho : s.accept = .lock → s.owner = none) (hc : s.cleared s.current = true) :
    CanReach (Sys.step locks) Leaked s := by
  have hinserting : ∀ u : Sys, u.accept = .inserting → u.current = s.current →
      u.cleared = s.cleared → CanReach (Sys.step locks) Leaked u := by
    intro u hu hcur hcl
    refine .before (e := .accept) (t := { u.endWrite .accept with
      sessions := Function.update u.sessions u.current true,
      inserted := Function.update u.inserted u.current true, accept := .unlock })
      (by simp only [Sys.step, Sys.acceptStep, hu]) ?_
    refine canReach_of_past (Or.inl rfl) ?_ (Or.inl (Function.update_self ..))
    show u.cleared u.current = true
    rw [hcur, hcl]
    exact hc
  have hinsert : ∀ u : Sys, u.accept = .insert → u.current = s.current →
      u.cleared = s.cleared → CanReach (Sys.step locks) Leaked u := by
    intro u hu hcur hcl
    exact .before (e := .accept) (t := { u.beginWrite .accept with accept := .inserting })
      (by simp only [Sys.step, Sys.acceptStep, hu]) (hinserting _ rfl hcur hcl)
  rcases ha with ha | ha | ha
  · exact .before (e := .accept) (t := { s with owner := some .accept, accept := .insert })
      (by simp only [Sys.step, Sys.acceptStep, ha, ho ha, if_true]) (hinsert _ rfl rfl rfl)
  · exact hinsert s ha rfl rfl
  · exact hinserting s ha rfl rfl

/-- An erase that has begun before the insert of its session was done, or in a corrupted map. -/
theorem canReach_of_erasing {s : Sys} {i k : Nat} (hs : Ok locks s) (hi : s.pool i = .erasing k)
    (hbad : s.corrupted = true ∨ ¬ s.inserted k = true) : CanReach (Sys.step locks) Leaked s := by
  -- the erase and `ClearSession` come to their end
  refine .before (e := .pool i) (t := { s.endWrite (.pool i) with
    sessions := Function.update s.sessions k false,
    pool := Function.update s.pool i (.leave k) })
    (by simp only [Sys.step, Sys.poolStep, hi]) ?_
  refine .before (e := .pool i) (t := { s.endWrite (.pool i) with
    sessions := Function.update s.sessions k false,
    owner := if locks then none else s.owner,
    cleared := Function.update s.cleared k true,
    pool := Function.update (Function.update s.pool i (.leave k)) i .idle })
    (by simp only [Sys.step, Sys.poolStep, Function.update_self, Sys.endWrite]) ?_
  -- and then `HandleAccept`, if it is not over
  rcases hs.tracked.inserted_of_started k
    (hs.tracked.started_of_clear i k (Or.inr (Or.inr (Or.inl hi)))) with hin | ⟨rfl, hpending⟩
  · have hcor : s.corrupted = true := hbad.resolve_right fun h => h hin
    rcases hs.tracked.inserted_once k hin with hlt | ⟨rfl, hpast⟩
    · exact .here ⟨k, hs.tracked.finished_of_lt k hlt, Function.update_self .., Or.inr hcor⟩
    · exact canReach_of_past hpast (Function.update_self ..) (Or.inr hcor)
  · refine canReach_of_pending hpending (fun hlock => ?_) (Function.update_self ..)
    have ha : s.accept = .lock := hlock
    clear hlock
    cases locks with
    | true => rfl
    | false =>
      -- nobody has the mutex: the accept handler is about to take it
      show s.owner = none
      cases hown : s.owner with
      | none => rfl
      | some o =>
        cases o with
        | accept =>
          rcases hs.held.accept.mp hown with hc | hc | hc <;> rw [ha] at hc <;> cases hc
        | pool j => cases ((hs.held.pool j).mp hown).1

/-- What a step that is not orderly begins. -/
theorem not_orderly {s : Sys} {e : Event} (hC : ¬ Orderly locks s e) :
    (e = .accept ∧ s.accept = .insert ∧ s.writers ≠ []) ∨
      ∃ i k, e = .pool i ∧ s.pool i = .erase k ∧ (¬ s.inserted k = true ∨ s.writers ≠ []) := by
  have hbad : InsertFirst s e → ¬ Alone s e := fun h1 h2 => hC ⟨h1, fun _ => h2⟩
  cases e with
  | accepted _ => exact (hbad trivial trivial).elim
  | clear _ _ => exact (hbad trivial trivial).elim
  | accept =>
    obtain ⟨ha, hw⟩ := Classical.not_imp.mp (hbad trivial)
    exact Or.inl ⟨rfl, ha, hw⟩
  | pool i =>
    by_cases hfirst : InsertFirst s (.pool i)
    · obtain ⟨k, hk⟩ := not_forall.mp (hbad hfirst)
      obtain ⟨hi, hw⟩ := Classical.not_imp.mp hk
      exact Or.inr ⟨i, k, rfl, toErase_eq.mp hi, Or.inr hw⟩
    · obtain ⟨k, hk⟩ := not_forall.mp hfirst
      obtain ⟨hi, hin⟩ := Classical.not_imp.mp hk
      exact Or.inr ⟨i, k, rfl, toErase_eq.mp hi, Or.inl hin⟩

/-- A step that is not orderly can lead to a leak. -/
theorem canReach_leaked {s t : Sys} {e : Event} (hs : Ok locks s) (h : s.step locks e = some t)
    (hC : ¬ Orderly locks s e) : CanReach (Sys.step locks) Leaked t := by
  have hok := step_ok s e t hs h
  have hlost : s.writers ≠ [] → (s.corrupted || !s.writers.isEmpty) = true := by
    intro hw
    simp [hw]
  rcases not_orderly hC with ⟨rfl, ha, hw⟩ | ⟨i, k, rfl, hi, hbad⟩
  · simp only [Sys.step, Sys.acceptStep, ha, Option.some.injEq] at h
    subst h
    -- the writer is a thread of the pool, and its erase goes on in a corrupted map
    obtain ⟨o, ho⟩ := List.exists_mem_of_ne_nil _ hw
    cases o with
    | accept =>
      have hin := hs.writing.accept.mp ho
      rw [ha] at hin
      cases hin
    | pool j =>
      obtain ⟨k, hk⟩ := (hs.writing.pool j).mp ho
      exact canReach_of_erasing hok hk (Or.inl (hlost hw))
  · simp only [Sys.step, Sys.poolStep, hi, Option.some.injEq] at h
    subst h
    exact canReach_of_erasing hok (Function.update_self ..) (hbad.symm.imp_left hlost)

/-- **When a terminated session stays registered**: never in a run all of whose steps are orderly;
and each step that is not can lead to it. -/
theorem no_session_leaked {es : List Event} {s : Sys}
    (h : run (Sys.step locks) Sys.init es = some s) :
    (Meets (Sys.step locks) (Orderly locks) Sys.init es → ¬ Leaked s) ∧
    ∀ e t, s.step locks e = some t → ¬ Orderly locks s e → CanReach (Sys.step locks) Leaked t := by
  constructor
  · intro hm
    exact (run_invariant_of_meets step_gone gone_init hm h).not_leaked
  · intro e t hstep hC
    exact canReach_leaked (run_invariant step_ok ok_init h) hstep hC

/-- The first session is accepted, registered, and cleared while the second one is being started. -/
theorem no_session_leaked_one : ∃ s : Sys, run (Sys.step false) Sys.init
      [.accepted false, .accept, .accept, .accept, .accept, .accept, .accept, .clear 0 0,
        .accepted false, .pool 0, .accept, .pool 0, .pool 0, .pool 0] = some s ∧
    s.finished 0 = true ∧ s.cleared 0 = true ∧ s.sessions 0 = false ∧ s.started 1 = true ∧
    ¬ Leaked s ∧
    ∀ e t, s.step false e = some t → ¬ Orderly false s e → CanReach (Sys.step false) Leaked t := by
  have hiff := @no_session_leaked false
    [.accepted false, .accept, .accept, .accept, .accept, .accept, .accept, .clear 0 0,
      .accepted false, .pool 0, .accept, .pool 0, .pool 0, .pool 0] _ rfl
  exact ⟨_, rfl, rfl, rfl, rfl, rfl, hiff.1 (by decide), hiff.2⟩

/-- The session is erased before it is inserted, in both servers. -/
theorem session_leaked :
    (¬ ∀ (es : List Event) (s : Sys),
      run BoostCoServer.registryStep Sys.init es = some s → ¬ Leaked s) ∧
    ¬ ∀ (es : List Event) (s : Sys),
      run LogicServer.registryStep Sys.init es = some s → ¬ Leaked s := by
  constructor
  · intro hall
    exact hall [.accepted false, .accept, .clear 0 0, .pool 0, .pool 0, .pool 0, .pool 0, .accept,
      .accept, .accept, .accept, .accept] _ rfl ⟨0, rfl, rfl, Or.inl rfl⟩
  · intro hall
    exact hall [.accepted false, .accept, .clear 0 0, .pool 0, .pool 0, .pool 0, .pool 0, .accept,
      .accept, .accept, .accept, .accept] _ rfl ⟨0, rfl, rfl, Or.inl rfl⟩

end AsioLearn.CServer
