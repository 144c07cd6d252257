import AsioLearn.WebSocket.Chat

/-!
# The life of a chat session (`shared_state.cc`, `websocket_session.cc`)

`sessions_` holds raw pointers, and only the destructor takes one out. `shared_state::send` goes
through all of them for their weak pointers, and a broadcast goes on with sessions that may have
closed meanwhile.

Results:
* `useCount_step`: a session without owners never gets one again;
* `step_lifetime`: the invariant `Lifetime`. Who is registered, and what is left of a destroyed
  session;
* `no_use_after_free`: no step of any run touches a session that has been destroyed or not been
  made, and `sessions_` is the sessions that have joined and not been destroyed.
-/

namespace AsioLearn.WebSocket

open Lib Lib.Lts

/-! ## Owners -/

theorem operations_eq_zero {w : WebsocketSession} :
    w.operations = 0 ↔ w.reading = .idle ∧ w.writing = none := by
  unfold WebsocketSession.operations
  split_ifs with hr hw hw <;> simp [hr, hw]

theorem useCount_eq_zero {c : Chat} {t : Nat} :
    c.useCount t = 0 ↔ (c.session t).reading = .idle ∧ (c.session t).writing = none ∧
      c.posted t = [] ∧ ∀ s < c.count, (c.session s).reading.holds ≠ some t := by
  unfold Chat.useCount
  rw [Nat.add_eq_zero_iff, Nat.add_eq_zero_iff, operations_eq_zero, List.length_eq_zero_iff,
    List.countP_eq_zero, and_assoc, and_assoc]
  simp

theorem useCount_ne_zero_of_reading {c : Chat} {t : Nat} (h : (c.session t).reading ≠ .idle) :
    c.useCount t ≠ 0 := fun h0 => h (useCount_eq_zero.mp h0).1

/-! ## The invariant -/

/-- The sessions `on_read` has yet to deal with, the one it has locked included. -/
def Reading.targets : Reading → List Nat
  | .sending ⟨_, .none, v⟩ => v
  | .sending ⟨_, .before t, v⟩ => t :: v
  | .sending ⟨_, .after t, v⟩ => t :: v
  | _ => []

theorem mem_targets_of_holds {r : Reading} {t : Nat} (h : r.holds = some t) : t ∈ r.targets := by
  unfold Reading.holds at h
  split at h
  · obtain rfl := Option.some.inj h
    exact List.mem_cons_self
  · obtain rfl := Option.some.inj h
    exact List.mem_cons_self
  · cases h

/-- What has not been made is untouched, what has been destroyed has no owner, and `sessions_` and
every broadcast list sessions that joined, none of them twice. -/
structure Lifetime (c : Chat) : Prop where
  fresh : ∀ t, c.count ≤ t → c.session t = .made ∧ c.posted t = [] ∧ c.joined t = false ∧
    c.destroyed t = false
  dead : ∀ t, c.destroyed t = true → c.useCount t = 0
  registered : ∀ t, t ∈ c.sessions ↔ c.joined t = true ∧ c.destroyed t = false
  nodup : c.sessions.Nodup
  visits : ∀ s, (c.session s).reading.targets.Nodup ∧
    ∀ t ∈ (c.session s).reading.targets, c.joined t = true

theorem lifetime_init : Lifetime Chat.init where
  fresh t _ := ⟨rfl, rfl, rfl, rfl⟩
  dead t h := by cases h
  registered t := by simp [Chat.init]
  nodup := List.nodup_nil
  visits s := ⟨List.nodup_nil, fun t h => by cases h⟩

theorem Lifetime.lt_of_joined {c : Chat} (hc : Lifetime c) {t : Nat} (ht : c.joined t = true) :
    t < c.count := by
  by_contra hlt
  rw [(hc.fresh t (Nat.le_of_not_lt hlt)).2.2.1] at ht
  cases ht

theorem Lifetime.lt_of_destroyed {c : Chat} (hc : Lifetime c) {t : Nat}
    (ht : c.destroyed t = true) : t < c.count := by
  by_contra hlt
  rw [(hc.fresh t (Nat.le_of_not_lt hlt)).2.2.2] at ht
  cases ht

theorem Lifetime.lt_of_reading {c : Chat} (hc : Lifetime c) {s : Nat}
    (hs : (c.session s).reading ≠ .idle) : s < c.count := by
  by_contra hlt
  rw [(hc.fresh s (Nat.le_of_not_lt hlt)).1] at hs
  exact hs rfl

/-- A session locked by a broadcast has an owner. -/
theorem Lifetime.useCount_of_holds {c : Chat} (hc : Lifetime c) {s t : Nat}
    (h : (c.session s).reading.holds = some t) : c.useCount t ≠ 0 := by
  have hs : s < c.count := by
    refine hc.lt_of_reading fun hr => ?_
    rw [hr] at h
    cases h
  exact fun h0 => (useCount_eq_zero.mp h0).2.2.2 s hs h

theorem Lifetime.not_destroyed {c : Chat} (hc : Lifetime c) {t : Nat} (h : c.useCount t ≠ 0) :
    c.destroyed t = false := by
  by_contra hd
  exact h (hc.dead t (by simpa using hd))

/-! ## One step -/

/-- The session whose handler or destructor the step is; the one being made, in an upgrade. -/
def Event.subject (c : Chat) : Event → Nat
  | .upgrade => c.count
  | .onAccept s _ | .readFailed s | .onRead s _ _ | .lock s | .send s | .release s | .readNext s
  | .onSend s | .onWrite s _ | .destroy s => s

/-- A step changes the members of its own session only. -/
theorem Moves.session_of_ne {c c' : Chat} {e : Event} (h : Moves c e c') {t : Nat}
    (ht : t ≠ e.subject c) : c'.session t = c.session t := by
  cases h with
  | upgrade => exact upgrade_of_ne c ht
  | destroy s hs h0 hd => rfl
  | _ => exact Function.update_of_ne ht ..

/-- What runs on a session is one of its owners, its destructor apart. -/
theorem Moves.useCount_subject {c c' : Chat} {e : Event} (h : Moves c e c')
    (hu : e ≠ .upgrade) (hd : e ≠ .destroy (e.subject c)) : c.useCount (e.subject c) ≠ 0 := by
  cases h with
  | upgrade => exact absurd rfl hu
  | destroy s _ _ _ => exact absurd rfl hd
  | onSend s ss rest hp _ =>
    intro h0
    rw [show c.posted s = [] from (useCount_eq_zero.mp h0).2.2.1] at hp
    cases hp
  | onWrite s ec front hw _ =>
    intro h0
    rw [show (c.session s).writing = none from (useCount_eq_zero.mp h0).2.1] at hw
    cases hw
  | refused s hr | accepted s hr | readFailed s hr | onRead s _ _ hr _ | locked s _ _ _ hr _
  | skipped s _ _ _ hr _ | send s _ _ _ hr | release s _ _ _ hr | readNext s _ hr =>
    exact useCount_ne_zero_of_reading fun h0 => by
      rw [show (c.session s).reading = .idle from h0] at hr
      cases hr

theorem holds_set {c : Chat} {a s t : Nat} {w : WebsocketSession}
    (h : ((c.set a w).session s).reading.holds = some t) :
    (s = a ∧ w.reading.holds = some t) ∨ (c.session s).reading.holds = some t := by
  by_cases hs : s = a
  · subst hs
    rw [set_self] at h
    exact Or.inl ⟨rfl, h⟩
  · rw [set_of_ne c w hs] at h
    exact Or.inr h

/-- A broadcast keeps what it holds, or locks a session that has an owner. -/
theorem Moves.holds {c c' : Chat} {e : Event} (h : Moves c e c') {s t : Nat}
    (ht : (c'.session s).reading.holds = some t) :
    (c.session s).reading.holds = some t ∨ c.useCount t ≠ 0 := by
  cases h with
  | destroy _ _ _ _ => exact Or.inl ht
  | locked a u ss v hr hu =>
    rcases holds_set ht with ⟨rfl, ht⟩ | ht
    · obtain rfl := Option.some.inj ht
      exact Or.inr hu
    · exact Or.inl ht
  | send a u ss v hr =>
    rcases holds_set ht with ⟨rfl, ht⟩ | ht
    · left
      rw [hr]
      exact ht
    · exact Or.inl ht
  | onSend a ss rest _ _ =>
    rcases holds_set ht with ⟨rfl, ht⟩ | ht
    · left
      rwa [onSend_reading] at ht
    · exact Or.inl ht
  | onWrite a ec front _ _ =>
    rcases holds_set ht with ⟨rfl, ht⟩ | ht
    · left
      rwa [onWrite_reading] at ht
    · exact Or.inl ht
  | _ =>
    rcases holds_set ht with ⟨-, ht⟩ | ht
    · cases ht
    · exact Or.inl ht

/-- The strand of a session gets a handler only from a broadcast that has locked the session. -/
theorem Moves.posted_eq_nil {c c' : Chat} {e : Event} (h : Moves c e c') {t : Nat}
    (hp : c.posted t = []) (hh : ∀ s, (c.session s).reading.holds ≠ some t) :
    c'.posted t = [] := by
  cases h with
  | send s u ss v hr =>
    have hu : t ≠ u := by
      rintro rfl
      exact hh s (by rw [hr]; rfl)
    exact (send_posted_of_ne c s ss hu).trans hp
  | onSend s ss rest hps _ =>
    have ht : t ≠ s := by
      rintro rfl
      rw [hp] at hps
      cases hps
    exact (Function.update_of_ne ht ..).trans hp
  | _ => exact hp

/-- **A session without owners never gets one again.** -/
theorem useCount_step {c c' : Chat} {e : Event} (hc : Lifetime c) (h : Moves c e c') {t : Nat}
    (ht : t < c.count) (h0 : c.useCount t = 0) : c'.useCount t = 0 := by
  have hown := useCount_eq_zero.mp h0
  have hheld : ∀ s, (c.session s).reading.holds ≠ some t :=
    fun s hs => hc.useCount_of_holds hs h0
  have hsess : c'.session t = c.session t := by
    by_cases hs : t = e.subject c
    · by_cases hu : e = .upgrade
      · subst hu
        exact absurd hs (Nat.ne_of_lt ht)
      · by_cases hd : e = .destroy (e.subject c)
        · rw [hd] at h
          cases h
          rfl
        · rw [hs] at h0
          exact absurd h0 (h.useCount_subject hu hd)
    · exact h.session_of_ne hs
  rw [useCount_eq_zero, hsess]
  refine ⟨hown.1, hown.2.1, h.posted_eq_nil hown.2.2.1 hheld, fun s _ hs => ?_⟩
  rcases h.holds hs with hs | hs
  · exact hheld s hs
  · exact hs h0

theorem targets_set {c : Chat} {a s : Nat} {w : WebsocketSession}
    (hw : s = a → w.reading.targets.Sublist (c.session s).reading.targets) :
    ((c.set a w).session s).reading.targets.Sublist (c.session s).reading.targets := by
  by_cases h : s = a
  · subst h
    rw [set_self]
    exact hw rfl
  · rw [set_of_ne c w h]

/-- A broadcast starts with the registered sessions, and goes on to less. -/
theorem Moves.targets {c c' : Chat} {e : Event} (h : Moves c e c') (s : Nat) :
    (c'.session s).reading.targets.Sublist (c.session s).reading.targets ∨
      (c'.session s).reading.targets.Perm c.sessions := by
  cases h with
  | destroy _ _ _ _ => exact Or.inl (List.Sublist.refl _)
  | onRead a message v hr hv =>
    by_cases hs : s = a
    · subst hs
      rw [set_self]
      exact Or.inr hv
    · rw [set_of_ne c _ hs]
      exact Or.inl (List.Sublist.refl _)
  | locked a u ss v hr _ =>
    refine Or.inl (targets_set ?_)
    rintro rfl
    rw [hr]
    exact List.Sublist.refl _
  | send a u ss v hr =>
    refine Or.inl (targets_set ?_)
    rintro rfl
    rw [send_session, hr]
    exact List.Sublist.refl _
  | skipped a u ss v hr _ | release a u ss v hr =>
    refine Or.inl (targets_set ?_)
    rintro rfl
    rw [hr]
    exact List.sublist_cons_self ..
  | onSend a ss rest _ _ =>
    refine Or.inl (targets_set ?_)
    rintro rfl
    rw [onSend_reading]
  | onWrite a ec front _ _ =>
    refine Or.inl (targets_set ?_)
    rintro rfl
    rw [onWrite_reading]
  | _ => exact Or.inl (targets_set fun _ => List.nil_sublist _)

theorem Moves.joined {c c' : Chat} {e : Event} (h : Moves c e c') (t : Nat) :
    c'.joined t = true ↔ c.joined t = true ∨ e = .onAccept t false := by
  cases h with
  | accepted s hr =>
    show Function.update c.joined s true t = true ↔ _
    by_cases ht : t = s
    · simp [ht]
    · simp [Function.update_of_ne ht, Ne.symm ht]
  | refused s hr =>
    show c.joined t = true ↔ _
    simp
  | _ =>
    show c.joined t = true ↔ _
    simp

theorem Moves.destroyed {c c' : Chat} {e : Event} (h : Moves c e c') (t : Nat) :
    c'.destroyed t = true ↔ c.destroyed t = true ∨ e = .destroy t := by
  cases h with
  | destroy s _ _ _ =>
    show Function.update c.destroyed s true t = true ↔ _
    by_cases ht : t = s
    · simp [ht]
    · simp [Function.update_of_ne ht, Ne.symm ht]
  | _ =>
    show c.destroyed t = true ↔ _
    simp

theorem Moves.mem_sessions {c c' : Chat} {e : Event} (h : Moves c e c') (hc : c.sessions.Nodup)
    (t : Nat) :
    t ∈ c'.sessions ↔ (t ∈ c.sessions ∧ e ≠ .destroy t) ∨ e = .onAccept t false := by
  cases h with
  | accepted s _ =>
    show t ∈ c.sessions.insert s ↔ _
    rw [List.mem_insert_iff]
    simp [or_comm, eq_comm]
  | destroy s _ _ _ =>
    show t ∈ c.sessions.erase s ↔ _
    rw [hc.mem_erase_iff]
    simp [and_comm, eq_comm]
  | _ =>
    show t ∈ c.sessions ↔ _
    simp

theorem Moves.nodup {c c' : Chat} {e : Event} (h : Moves c e c') (hc : c.sessions.Nodup) :
    c'.sessions.Nodup := by
  cases h with
  | accepted s _ => exact hc.insert
  | destroy s _ _ _ => exact hc.erase s
  | _ => exact hc

theorem Moves.count {c c' : Chat} {e : Event} (h : Moves c e c') :
    c'.count = if e = .upgrade then c.count + 1 else c.count := by
  cases h <;> rfl

/-- Nothing runs on a session that has not been made. -/
theorem Lifetime.lt_of_useCount {c : Chat} (hc : Lifetime c) {t : Nat} (h : c.useCount t ≠ 0) :
    t < c.count := by
  by_contra hlt
  obtain ⟨hs, hp, hj, -⟩ := hc.fresh t (Nat.le_of_not_lt hlt)
  refine h (useCount_eq_zero.mpr ⟨by rw [hs]; rfl, by rw [hs]; rfl, hp, fun s _ hh => ?_⟩)
  have hjoined := (hc.visits s).2 t (mem_targets_of_holds hh)
  rw [hj] at hjoined
  cases hjoined

theorem Lifetime.subject_lt {c c' : Chat} {e : Event} (hc : Lifetime c) (h : Moves c e c')
    (hu : e ≠ .upgrade) : e.subject c < c.count := by
  by_cases hd : e = .destroy (e.subject c)
  · rw [hd] at h
    cases h with
    | destroy _ hs _ _ => exact hs
  · exact hc.lt_of_useCount (h.useCount_subject hu hd)

/-- The session that joins is alive. -/
theorem Lifetime.not_destroyed_of_accepted {c c' : Chat} (hc : Lifetime c) {t : Nat}
    (h : Moves c (.onAccept t false) c') : c.destroyed t = false :=
  hc.not_destroyed (h.useCount_subject nofun nofun)

theorem step_lifetime {c c' : Chat} {e : Event} (hc : Lifetime c) (h : Moves c e c') :
    Lifetime c' where
  fresh t ht := by
    have hcount : c.count ≤ t ∧ t ≠ e.subject c := by
      rw [h.count] at ht
      split_ifs at ht with hu
      · subst hu
        exact ⟨Nat.le_of_succ_le ht, Nat.ne_of_gt ht⟩
      · exact ⟨ht, Nat.ne_of_gt (Nat.lt_of_lt_of_le (hc.subject_lt h hu) ht)⟩
    obtain ⟨hs, hp, hj, hd⟩ := hc.fresh t hcount.1
    have hne : ∀ {e'}, e = e' → e'.subject c ≠ t := by
      rintro _ rfl
      exact hcount.2.symm
    refine ⟨(h.session_of_ne hcount.2).trans hs, h.posted_eq_nil hp fun s hh => ?_, ?_, ?_⟩
    · have hjoined := (hc.visits s).2 t (mem_targets_of_holds hh)
      rw [hj] at hjoined
      cases hjoined
    · rw [Bool.eq_false_iff, ne_eq, h.joined t, hj]
      rintro (hj | he)
      · cases hj
      · exact hne he rfl
    · rw [Bool.eq_false_iff, ne_eq, h.destroyed t, hd]
      rintro (hd | he)
      · cases hd
      · exact hne he rfl
  dead t ht := by
    rcases (h.destroyed t).mp ht with hd | rfl
    · exact useCount_step hc h (hc.lt_of_destroyed hd) (hc.dead t hd)
    · cases h with
      | destroy _ hs h0 _ => exact useCount_step hc (.destroy t hs h0 ‹_›) hs h0
  registered t := by
    have hd : c'.destroyed t = false ↔ c.destroyed t = false ∧ e ≠ .destroy t := by
      rw [Bool.eq_false_iff, ne_eq, h.destroyed t, not_or, Bool.not_eq_true]
    rw [h.mem_sessions hc.nodup, h.joined, hd, hc.registered]
    constructor
    · rintro (⟨⟨hj, hd⟩, he⟩ | rfl)
      · exact ⟨Or.inl hj, hd, he⟩
      · exact ⟨Or.inr rfl, hc.not_destroyed_of_accepted h, nofun⟩
    · rintro ⟨hj | he, hd, hne⟩
      · exact Or.inl ⟨⟨hj, hd⟩, hne⟩
      · exact Or.inr he
  nodup := h.nodup hc.nodup
  visits s := by
    rcases h.targets s with hs | hs
    · exact ⟨(hc.visits s).1.sublist hs,
        fun t ht => (h.joined t).mpr (Or.inl ((hc.visits s).2 t (hs.subset ht)))⟩
    · exact ⟨hs.nodup_iff.mpr hc.nodup, fun t ht =>
        (h.joined t).mpr (Or.inl ((hc.registered t).mp (hs.mem_iff.mp ht)).1)⟩

/-! ## Every run -/

theorem run_lifetime {c : Chat} {es : List Event} (h : run Chat.step .init es = some c) :
    Lifetime c :=
  run_invariant (fun _ _ _ hI hs => step_lifetime hI (step_moves hs)) lifetime_init h

/-- The sessions whose members a step reads or writes: `weak_from_this` reads the session, a weak
pointer that is locked or let go does not. -/
def Event.touches (c : Chat) : Event → List Nat
  | .upgrade => []
  | .onRead s _ v => s :: v
  | .send s => s :: (c.session s).reading.holds.toList
  | .onAccept s _ | .readFailed s | .lock s | .release s | .readNext s | .onSend s | .onWrite s _
  | .destroy s => [s]

theorem Lifetime.touches {c c' : Chat} {e : Event} (hc : Lifetime c) (h : Moves c e c') {t : Nat}
    (ht : t ∈ e.touches c) : t < c.count ∧ c.destroyed t = false := by
  have alive : ∀ {t}, c.useCount t ≠ 0 → t < c.count ∧ c.destroyed t = false :=
    fun h => ⟨hc.lt_of_useCount h, hc.not_destroyed h⟩
  cases h with
  | upgrade => cases ht
  | destroy s hs _ hd =>
    obtain rfl := List.mem_singleton.mp ht
    exact ⟨hs, hd⟩
  | onRead s message v hr hv =>
    rcases List.mem_cons.mp ht with rfl | ht
    · exact alive (useCount_ne_zero_of_reading (by rw [hr]; nofun))
    · obtain ⟨hj, hd⟩ := (hc.registered t).mp (hv.mem_iff.mp ht)
      exact ⟨hc.lt_of_joined hj, hd⟩
  | send s u ss v hr =>
    rcases List.mem_cons.mp ht with rfl | ht
    · exact alive (useCount_ne_zero_of_reading (by rw [hr]; nofun))
    · exact alive (hc.useCount_of_holds (Option.mem_toList.mp ht))
  | refused s hr | accepted s hr | readFailed s hr | locked s _ _ _ hr _ | skipped s _ _ _ hr _
  | release s _ _ _ hr | readNext s _ hr =>
    obtain rfl := List.mem_singleton.mp ht
    exact alive (useCount_ne_zero_of_reading (by rw [hr]; nofun))
  | onSend s ss rest hp hf =>
    obtain rfl := List.mem_singleton.mp ht
    exact alive ((Moves.onSend t ss rest hp hf).useCount_subject nofun nofun)
  | onWrite s ec front hw hf =>
    obtain rfl := List.mem_singleton.mp ht
    exact alive ((Moves.onWrite t ec front hw hf).useCount_subject nofun nofun)

/-- **No session is used after it was destroyed, or destroyed twice**: whatever the interleaving, a
step touches only sessions that have been made and not destroyed, and the raw pointers in
`sessions_` are the sessions that have joined and not been destroyed. -/
theorem no_use_after_free {c : Chat} {es : List Event} (h : run Chat.step .init es = some c) :
    (∀ t, t ∈ c.sessions ↔ c.joined t = true ∧ c.destroyed t = false) ∧ c.sessions.Nodup ∧
      ∀ e c', c.step e = some c' →
        ∀ t ∈ e.touches c, t < c.count ∧ c.destroyed t = false := by
  have hc := run_lifetime h
  exact ⟨hc.registered, hc.nodup, fun e c' he t ht => hc.touches (step_moves he) ht⟩

/-- A client goes while another one's broadcast has yet to reach it. -/
theorem no_use_after_free_gone : ∃ c : Chat, run Chat.step .init
      [.upgrade, .onAccept 0 false, .upgrade, .onAccept 1 false, .onRead 0 [104] [0, 1],
        .readFailed 1, .destroy 1, .lock 0] = some c ∧
    (∀ t, t ∈ c.sessions ↔ c.joined t = true ∧ c.destroyed t = false) ∧ c.sessions.Nodup ∧
      ∀ e c', c.step e = some c' →
        ∀ t ∈ e.touches c, t < c.count ∧ c.destroyed t = false :=
  ⟨_, rfl, @no_use_after_free _ [.upgrade, .onAccept 0 false, .upgrade, .onAccept 1 false,
    .onRead 0 [104] [0, 1], .readFailed 1, .destroy 1, .lock 0] rfl⟩

end AsioLearn.WebSocket
