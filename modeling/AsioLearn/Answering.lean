import AsioLearn.Serving
import AsioLearn.Progress
import Mathlib.Data.List.Forall2

/-!
# Replies in the order of the requests

The messages of a session on their way through either server: its handler posts them one after the
other, the worker runs the callback for each, and the callback sends a reply to the same session.
Other sessions post and are answered at the same time.

* The handler of session `k` is the `k`-th poster of `LogicSystem`: it posts messages of session `k`
  only. Nothing but the callbacks calls `Send`.
* `Accepts` says of the send side of a server what is needed here: the nodes it has accepted, and
  which of its events are no calls of `Send`.

Results:
* `world_moves`: what a step of the system can do;
* `arrived_run`: what a handler has posted is pushed in that order, but for the message in hand;
* `replies_in_order`: what a session is sent are the replies to its messages, in order and none
  twice; none is left out exactly if the queue has room whenever a message of it is answered.
-/

namespace AsioLearn

open AsioLearn.Cpp AsioLearn.Wire AsioLearn.LogicSystem AsioLearn.Lib.Lts

variable {κ ε : Type} {S : Server κ ε} {J : JsonCpp}

/-! ## What a step can do -/

/-- `World.step` as a relation. -/
inductive WorldMoves (S : Server κ ε) (J : JsonCpp) (w : World κ) :
    WorldEvent ε → World κ → Prop where
  | logic (e : Event LogicNode) (l : Sys LogicNode) (hcallback : ∀ returns, e ≠ .callback returns)
      (hl : w.logic.step S.leaves LogicNode.registered e = some l) :
      WorldMoves S J w (.logic e) { w with logic := l }
  | answer (draining : Bool) (m : LogicNode) (s : κ) (hpc : w.logic.worker = .deal draining m)
      (hs : S.callback J (w.sends m.session) m.recvNode = .ok s) :
      WorldMoves S J w .callback ⟨{ w.logic with worker := .pop draining },
        Function.update w.sends m.session s⟩
  | harmful (draining : Bool) (m : LogicNode) (pc : WorkerPc LogicNode)
      (hpc : w.logic.worker = .deal draining m) (hend : pc = .terminated ∨ pc = .fault)
      (hs : ∀ s, S.callback J (w.sends m.session) m.recvNode ≠ .ok s) :
      WorldMoves S J w .callback { w with logic := { w.logic with worker := pc } }
  | session (i : Nat) (e : ε) (s : κ) (hs : S.sessionStep (w.sends i) e = some s) :
      WorldMoves S J w (.session i e) { w with sends := Function.update w.sends i s }

theorem world_moves {w t : World κ} {e : WorldEvent ε} (h : w.step S J e = some t) :
    WorldMoves S J w e t := by
  cases e with
  | session i e =>
    unfold World.step at h
    dsimp only at h
    split_ifs at h
    obtain ⟨s, hs, rfl⟩ := Option.map_eq_some_iff.mp h
    exact .session i e s hs
  | callback =>
    unfold World.step World.callbackStep at h
    dsimp only at h
    split at h
    · rename_i draining m hpc
      split at h
      · rename_i s hs
        obtain rfl := Option.some.inj h
        exact .answer draining m s hpc hs
      · rename_i hs
        obtain rfl := Option.some.inj h
        exact .harmful draining m _ hpc (Or.inl rfl) (by simp [hs])
      · rename_i hs
        obtain rfl := Option.some.inj h
        exact .harmful draining m _ hpc (Or.inl rfl) (by simp [hs])
      · rename_i hs
        obtain rfl := Option.some.inj h
        exact .harmful draining m _ hpc (Or.inl rfl) (by simp [hs])
      · rename_i hs
        obtain rfl := Option.some.inj h
        exact .harmful draining m _ hpc (Or.inr rfl) (by simp [hs])
      · rename_i hs
        obtain rfl := Option.some.inj h
        exact .harmful draining m _ hpc (Or.inr rfl) (by simp [hs])
    · cases h
  | logic e =>
    have hcallback : ∀ returns, e ≠ .callback returns := by
      rintro returns rfl
      cases h
    have hl : ∃ l, w.logic.step S.leaves LogicNode.registered e = some l ∧
        { w with logic := l } = t := by
      cases e with
      | callback returns => exact absurd rfl (hcallback returns)
      | _ => exact Option.map_eq_some_iff.mp h
    obtain ⟨l, hl, rfl⟩ := hl
    exact .logic e l hcallback hl

/-! ## From the handlers to the queue -/

/-- The messages of session `i`. -/
def ofSession (i : Nat) (ms : List LogicNode) : List LogicNode := ms.filter fun m => m.session == i

@[simp]
theorem ofSession_append (i : Nat) (ms ms' : List LogicNode) :
    ofSession i (ms ++ ms') = ofSession i ms ++ ofSession i ms' := List.filter_append ms ms'

theorem ofSession_self {i : Nat} {m : LogicNode} (h : m.session = i) : ofSession i [m] = [m] :=
  List.filter_eq_self.mpr (by simpa using h)

theorem ofSession_other {i : Nat} {m : LogicNode} (h : m.session ≠ i) : ofSession i [m] = [] :=
  List.filter_eq_nil_iff.mpr (by simpa using h)

theorem ofSession_filter (i : Nat) (p : LogicNode → Bool) (ms : List LogicNode) :
    ofSession i (ms.filter p) = (ofSession i ms).filter p := by
  unfold ofSession
  rw [List.filter_filter, List.filter_filter]
  congr 1
  funext m
  exact Bool.and_comm _ _

/-- The message the handler posts in this step. -/
def WorldEvent.posts (i : Nat) : WorldEvent ε → List LogicNode
  | .logic (.post k m) => if k = i then [m] else []
  | _ => []

/-- The messages the handler of session `i` posts in the run. -/
def postedBy (i : Nat) (es : List (WorldEvent ε)) : List LogicNode :=
  es.flatMap (WorldEvent.posts i)

/-- The messages of session `i` that have come so far. -/
def arrived (s : Sys LogicNode) (i : Nat) : List LogicNode :=
  ofSession i s.pushed ++ PosterPc.inHand (s.posters i)

/-- Each handler has messages of its own session only. -/
def OwnHands (s : Sys LogicNode) : Prop := ∀ k, ∀ m ∈ PosterPc.inHand (s.posters k), m.session = k

/-- The handlers post messages of their own sessions. -/
def WorldEvent.Own : WorldEvent ε → Prop
  | .logic (.post k m) => m.session = k
  | _ => True

theorem arrived_moves {leaves : Bool} {s t : Sys LogicNode} {e : Event LogicNode}
    (hown : OwnHands s) (he : WorldEvent.Own (.logic e : WorldEvent ε))
    (h : Moves leaves LogicNode.registered s e t) :
    OwnHands t ∧ ∀ j, arrived t j = arrived s j ++
      WorldEvent.posts j (.logic e : WorldEvent ε) := by
  have hsame : (∀ j, PosterPc.inHand (t.posters j) = PosterPc.inHand (s.posters j)) →
      t.pushed = s.pushed → (∀ j, WorldEvent.posts j (.logic e : WorldEvent ε) = []) →
      OwnHands t ∧ ∀ j, arrived t j = arrived s j ++
        WorldEvent.posts j (.logic e : WorldEvent ε) := by
    intro hhand hpushed hposts
    refine ⟨fun k => by rw [hhand k]; exact hown k, fun j => ?_⟩
    rw [hposts j, List.append_nil, arrived, arrived, hhand j, hpushed]
  cases h with
  | post i m hi =>
    have hm : m.session = i := he
    refine ⟨fun k => ?_, fun j => ?_⟩
    · rw [inHand_update]
      split_ifs with hk
      · rintro m' hm'
        rw [List.mem_singleton.mp hm', hm, hk]
      · exact hown k
    · show ofSession j s.pushed ++ _ = _
      rw [inHand_update]
      by_cases hj : j = i
      · have hidle : PosterPc.inHand (s.posters i) = [] := by rw [hi]; rfl
        rw [if_pos hj, hj, arrived, hidle, List.append_nil]
        exact congrArg _ (if_pos rfl).symm
      · have hnone : WorldEvent.posts j (.logic (.post i m) : WorldEvent ε) = [] :=
          if_neg (Ne.symm hj)
        rw [if_neg hj, hnone, List.append_nil]
        rfl
  | posterPush i m hi =>
    -- the message in hand becomes the last one pushed
    have hhand : PosterPc.inHand (s.posters i) = [m] := by rw [hi]; rfl
    have hm : m.session = i := hown i m (by rw [hhand]; exact List.mem_singleton_self m)
    refine ⟨fun k => ?_, fun j => ?_⟩
    · rw [inHand_update]
      split_ifs with hk
      · exact fun m' hm' => absurd hm' List.not_mem_nil
      · exact hown k
    · show ofSession j (s.pushed ++ [m]) ++ _ = arrived s j ++ []
      rw [inHand_update, ofSession_append, List.append_nil, arrived]
      by_cases hj : j = i
      · rw [if_pos hj, hj, ofSession_self hm, hhand]
        exact List.append_nil _
      · rw [if_neg hj, ofSession_other (by rw [hm]; exact Ne.symm hj), List.append_nil]
  | posterLock i m hi ho =>
    exact hsame (inHand_update_same (by rw [hi]; rfl)) rfl fun j => rfl
  | posterTest i hi => exact hsame (inHand_update_same (by rw [hi]; rfl)) rfl fun j => rfl
  | posterUnlock i notify hi =>
    exact hsame (inHand_update_same (by rw [hi]; cases notify <;> rfl)) rfl fun j => rfl
  | posterNotify i hi =>
    refine hsame (inHand_update_same (by rw [hi]; rfl)) (notifyOne_pushed s) fun j => rfl
  | dtorNotify hd =>
    exact hsame (fun j => congrArg (fun p => PosterPc.inHand (p j)) (notifyOne_posters s))
      (notifyOne_pushed s) fun j => rfl
  | _ => exact hsame (fun j => rfl) rfl fun j => rfl

theorem arrived_step (w : World κ) (e : WorldEvent ε) (t : World κ) (hown : OwnHands w.logic)
    (he : e.Own) (h : w.step S J e = some t) :
    OwnHands t.logic ∧ ∀ j, arrived t.logic j = arrived w.logic j ++ e.posts j := by
  cases world_moves h with
  | logic e l _ hl => exact arrived_moves hown he (step_moves hl)
  | answer _ _ _ _ _ => exact ⟨hown, fun j => (List.append_nil _).symm⟩
  | harmful _ _ _ _ _ _ => exact ⟨hown, fun j => (List.append_nil _).symm⟩
  | session _ _ _ _ => exact ⟨hown, fun j => (List.append_nil _).symm⟩

/-- **What the handlers post is pushed in that order**, but for the message in hand. -/
theorem arrived_run {w t : World κ} {es : List (WorldEvent ε)} (hown : OwnHands w.logic)
    (hes : ∀ e ∈ es, e.Own) (h : run (World.step S J) w es = some t) (i : Nat) :
    arrived t.logic i = arrived w.logic i ++ postedBy i es := by
  induction es generalizing w with
  | nil =>
    obtain rfl := Option.some.inj h
    exact (List.append_nil _).symm
  | cons e es ih =>
    obtain ⟨w', h1, h2⟩ := run_cons_eq_some.mp h
    obtain ⟨hown', harrived⟩ := arrived_step w e w' hown (hes e List.mem_cons_self) h1
    rw [ih hown' (fun e' he' => hes e' (List.mem_cons_of_mem e he')) h2, harrived i,
      List.append_assoc]
    rfl

/-! ## From the queue to the callbacks -/

/-- The messages the worker is done with. -/
def done (s : Sys LogicNode) : List LogicNode :=
  s.popped ++ match s.worker with
    | .pop _ => s.que.take 1
    | _ => []

theorem done_of_pop {s : Sys LogicNode} {draining : Bool} (h : s.worker = .pop draining) :
    done s = s.popped ++ s.que.take 1 := by
  unfold done
  rw [h]

theorem done_of_not_pop {s : Sys LogicNode} {pc : WorkerPc LogicNode} (h : s.worker = pc)
    (hpc : ∀ draining, pc ≠ .pop draining) : done s = s.popped := by
  unfold done
  split
  · next draining hpop => exact absurd (h.symm.trans hpop) (hpc draining)
  · exact List.append_nil _

/-- The queue keeps the order, and the worker is busy with the front message. -/
structure InOrder (s : Sys LogicNode) : Prop where
  order : s.popped ++ s.que = s.pushed
  front : match s.worker with
    | .find _ m => s.que.head? = some m
    | .deal _ m => s.que.head? = some m ∧ m.registered = true
    | .pop _ => s.que ≠ []
    | _ => True

theorem inOrder_init : InOrder (Sys.init : Sys LogicNode) := ⟨rfl, trivial⟩

theorem InOrder.done_prefix {s : Sys LogicNode} (h : InOrder s) : done s <+: s.pushed := by
  rw [← h.order]
  unfold done
  split
  · exact List.prefix_append_right_inj _ |>.mpr (List.take_prefix 1 s.que)
  · exact List.prefix_append_right_inj _ |>.mpr List.nil_prefix

theorem head?_append {q q' : List LogicNode} {m : LogicNode} (h : q.head? = some m) :
    (q ++ q').head? = some m := by
  cases q with
  | nil => cases h
  | cons a q => exact h

/-- Steps of the others: they add to the queue at its end. -/
theorem inOrder_others {s t : Sys LogicNode} (h : InOrder s) (hpopped : t.popped = s.popped)
    (hworker : t.worker = s.worker ∨ s.worker = .blocked ∧ t.worker = .signalled)
    (hque : ∃ q, t.que = s.que ++ q ∧ t.pushed = s.pushed ++ q) : InOrder t ∧ done t = done s := by
  obtain ⟨q, hq, hp⟩ := hque
  have horder : t.popped ++ t.que = t.pushed := by
    rw [hpopped, hq, hp, ← h.order, List.append_assoc]
  rcases hworker with hworker | ⟨hblocked, hworker⟩
  · have hfront := h.front
    refine ⟨⟨horder, ?_⟩, ?_⟩
    · rw [hworker, hq]
      split
      · next hpc =>
        rw [hpc] at hfront
        exact head?_append hfront
      · next hpc =>
        rw [hpc] at hfront
        exact ⟨head?_append hfront.1, hfront.2⟩
      · next hpc =>
        rw [hpc] at hfront
        exact List.append_ne_nil_of_left_ne_nil hfront q
      · trivial
    · unfold done
      rw [hpopped, hworker, hq]
      split
      · next hpc =>
        rw [hpc] at hfront
        obtain ⟨m, rest, hcons⟩ := List.exists_cons_of_ne_nil hfront
        rw [hcons]
        rfl
      · rfl
  · refine ⟨⟨horder, by rw [hworker]; trivial⟩, ?_⟩
    rw [done_of_not_pop hblocked nofun, done_of_not_pop hworker nofun, hpopped]

/-- The worker takes a message that has no callback to its end, and is done with no other outside
the callbacks. -/
theorem inOrder_worker {leaves : Bool} {s t : Sys LogicNode} (h : InOrder s)
    (hmoves : Moves leaves LogicNode.registered s .worker t) :
    InOrder t ∧ (done t).filter LogicNode.registered = (done s).filter LogicNode.registered := by
  have horder := h.order
  have hfront := h.front
  have hdone : ∀ {s' : Sys LogicNode} {pc pc' : WorkerPc LogicNode}, s.worker = pc →
      s'.worker = pc' → s'.popped = s.popped → (∀ draining, pc ≠ .pop draining) →
      (∀ draining, pc' ≠ .pop draining) →
      (done s').filter LogicNode.registered = (done s).filter LogicNode.registered := by
    intro s' pc pc' hpc hpc' hpopped hout hout'
    rw [done_of_not_pop hpc hout, done_of_not_pop hpc' hout', hpopped]
  cases hmoves with
  | acquire hpc _ =>
    refine ⟨⟨horder, trivial⟩, ?_⟩
    rcases hpc with hpc | hpc <;> exact hdone hpc rfl rfl nofun nofun
  | front draining m rest hpc hq =>
    exact ⟨⟨horder, by rw [hq]; rfl⟩, hdone hpc rfl rfl nofun nofun⟩
  | deal draining m hpc hr =>
    rw [hpc] at hfront
    exact ⟨⟨horder, hfront, hr⟩, hdone hpc rfl rfl nofun nofun⟩
  | skip draining m hpc hr =>
    rw [hpc] at hfront
    cases hq : s.que with
    | nil =>
      rw [hq] at hfront
      cases hfront
    | cons m' rest =>
      rw [hq] at hfront
      obtain rfl := Option.some.inj hfront
      refine ⟨⟨by rw [← horder, hq], List.cons_ne_nil m' rest⟩, ?_⟩
      rw [done_of_pop rfl, done_of_not_pop hpc nofun]
      simp [hr]
  | popEmpty draining hpc hq =>
    rw [hpc] at hfront
    exact absurd hq hfront
  | pop draining m rest hpc hq =>
    refine ⟨⟨?_, ?_⟩, ?_⟩
    · rw [← horder, hq, List.append_assoc]
      rfl
    · cases draining <;> trivial
    · rw [done_of_pop hpc, hq]
      cases draining <;> exact congrArg _ (done_of_not_pop rfl nofun)
  | drained hpc hq =>
    cases leaves <;> exact ⟨⟨horder, trivial⟩, hdone hpc rfl rfl nofun nofun⟩
  | unlock exit hpc =>
    cases exit <;> exact ⟨⟨horder, trivial⟩, hdone hpc rfl rfl nofun nofun⟩
  | frontEmpty draining hpc hq => exact ⟨⟨horder, trivial⟩, hdone hpc rfl rfl nofun nofun⟩
  | mustWait hpc _ _ | goOn hpc _ | block hpc | seeStop hpc _ | seeNone hpc _ | drain hpc _ =>
    exact ⟨⟨horder, trivial⟩, hdone hpc rfl rfl nofun nofun⟩

theorem notifyOne_popped (s : Sys LogicNode) : s.notifyOne.popped = s.popped := by
  unfold Sys.notifyOne
  split <;> rfl

theorem inOrder_moves {leaves : Bool} {s t : Sys LogicNode} {e : Event LogicNode} (h : InOrder s)
    (hcallback : ∀ returns, e ≠ .callback returns)
    (hmoves : Moves leaves LogicNode.registered s e t) :
    InOrder t ∧ (done t).filter LogicNode.registered = (done s).filter LogicNode.registered := by
  have hothers : t.popped = s.popped →
      (t.worker = s.worker ∨ s.worker = .blocked ∧ t.worker = .signalled) →
      (∃ q, t.que = s.que ++ q ∧ t.pushed = s.pushed ++ q) →
      InOrder t ∧ (done t).filter LogicNode.registered = (done s).filter LogicNode.registered := by
    intro hpopped hworker hque
    obtain ⟨h1, h2⟩ := inOrder_others h hpopped hworker hque
    exact ⟨h1, congrArg _ h2⟩
  have hnone : ∃ q, s.que = s.que ++ q ∧ s.pushed = s.pushed ++ q :=
    ⟨[], (List.append_nil _).symm, (List.append_nil _).symm⟩
  have hnotified : ∃ q, s.notifyOne.que = s.que ++ q ∧ s.notifyOne.pushed = s.pushed ++ q := by
    rw [notifyOne_que, notifyOne_pushed]
    exact hnone
  cases e with
  | worker => exact inOrder_worker h hmoves
  | callback returns => exact absurd rfl (hcallback returns)
  | spurious =>
    cases hmoves with
    | spurious hpc => exact hothers rfl (Or.inr ⟨hpc, rfl⟩) hnone
  | post i m =>
    cases hmoves with
    | post _ _ _ => exact hothers rfl (Or.inl rfl) hnone
  | poster i =>
    cases hmoves with
    | posterLock _ _ _ _ => exact hothers rfl (Or.inl rfl) hnone
    | posterPush _ m _ => exact hothers rfl (Or.inl rfl) ⟨[m], rfl, rfl⟩
    | posterTest _ _ => exact hothers rfl (Or.inl rfl) hnone
    | posterUnlock _ _ _ => exact hothers rfl (Or.inl rfl) hnone
    | posterNotify _ _ => exact hothers (notifyOne_popped s) (notifyOne_worker s) hnotified
  | dtor =>
    cases hmoves with
    | dtorStop _ => exact hothers rfl (Or.inl rfl) hnone
    | dtorNotify _ => exact hothers (notifyOne_popped s) (notifyOne_worker s) hnotified
    | dtorJoin _ _ => exact hothers rfl (Or.inl rfl) hnone

/-! ## From the callbacks to the send queues -/

/-- What is known of a send side beyond `Server`. -/
structure Accepts (S : Server κ ε) where
  /-- No message sent yet. -/
  empty : κ
  /-- The nodes that have been queued. -/
  accepted : κ → List SendNode
  /-- The event is no call of `Send`. -/
  completion : ε → Prop
  accepted_empty : accepted empty = []
  send_full : ∀ {s t msg msgid}, maxSendque < S.sendQueSize s → S.send s msg msgid = .ok t → t = s
  send_room : ∀ {s t msg msgid}, ¬ maxSendque < S.sendQueSize s → S.send s msg msgid = .ok t →
    ∃ init n, SendNode.new init (msg ++ [0]) (short msg.length) msgid = .ok n ∧
      accepted t = accepted s ++ [n]
  completion_accepted : ∀ {s e t}, completion e → S.sessionStep s e = some t →
    accepted t = accepted s

/-- A call of `Send` that returns with room in the queue. -/
theorem callerView_room {s t : κ} {sendQueSize : Nat} {node : Except Fault SendNode}
    {after : Option κ} (hroom : ¬ maxSendque < sendQueSize)
    (h : callerView s sendQueSize node after = .ok t) : ∃ n, node = .ok n ∧ after = some t := by
  unfold callerView at h
  rw [if_neg hroom] at h
  split at h
  · cases h
  · rename_i n
    split at h
    · obtain rfl := Except.ok.inj h
      exact ⟨n, rfl, rfl⟩
    · cases h

/-- The completions of `logicServer`. -/
def LogicServer.SendEvent.isCompletion : LogicServer.SendEvent → Prop
  | .written _ | .failed _ _ => True
  | _ => False

/-- The completions of `BoostCoServer`, and the second half of a `HandleWrite`. -/
def BoostCoServer.SendEvent.isCompletion : BoostCoServer.SendEvent → Prop
  | .written _ | .startPending _ | .failed _ => True
  | _ => False

/-- `logicServer`. -/
def LogicServer.accepts : Accepts logicServer where
  empty := .empty
  accepted s := s.accepted
  completion := LogicServer.SendEvent.isCompletion
  accepted_empty := rfl
  send_full {s t msg msgid} hfull h := by
    have hsame : s.call msg msgid = .ok s := if_pos hfull
    exact (Except.ok.inj (hsame.symm.trans h)).symm
  send_room {s t msg msgid} hroom h := by
    obtain ⟨n, hn, hafter⟩ := callerView_room hroom h
    unfold LogicServer.SendSide.sendString at hafter
    rw [hn] at hafter
    have hacc := LogicServer.sendNode_accepted hafter
    rw [if_neg (show ¬ maxSendque < s.sendQue.length from hroom)] at hacc
    exact ⟨_, n, hn, hacc⟩
  completion_accepted {s e t} he h := by
    cases e with
    | send _ _ _ => exact he.elim
    | sendString _ _ => exact he.elim
    | written i =>
      obtain ⟨-, h⟩ := LogicServer.step_written h
      obtain ⟨node, rest, -, ⟨-, rfl⟩ | ⟨next, more, -, rfl⟩⟩ := LogicServer.handleWrite_cases h
      · rfl
      · rfl
    | failed i closeThrows =>
      obtain ⟨-, rfl⟩ := LogicServer.step_failed h
      cases closeThrows <;> rfl

/-- `BoostCoServer`. -/
def BoostCoServer.accepts (heap : Nat → Nat → UInt8) : Accepts (boostCoServer heap) where
  empty := .empty
  accepted s := s.accepted
  completion := BoostCoServer.SendEvent.isCompletion
  accepted_empty := rfl
  send_full {s t msg msgid} hfull h := by
    have hsame : s.call heap msg msgid = .ok s := if_pos hfull
    exact (Except.ok.inj (hsame.symm.trans h)).symm
  send_room {s t msg msgid} hroom h := by
    obtain ⟨n, hn, hafter⟩ := callerView_room hroom h
    have hacc := BoostCoServer.send_accepted hafter
    rw [if_neg (show ¬ maxSendque < s.sendQue.length from hroom), hn] at hacc
    exact ⟨_, n, hn, hacc⟩
  completion_accepted {s e t} he h := by
    cases e with
    | send _ _ _ => exact he.elim
    | sendString _ _ => exact he.elim
    | written i =>
      obtain ⟨-, node, rest, -, ⟨-, rfl⟩ | ⟨next, more, -, rfl⟩⟩ :=
        @BoostCoServer.written_cases heap s t i h
      · rfl
      · rfl
    | startPending i =>
      obtain ⟨n, -, rfl⟩ := BoostCoServer.startPending_cases h
      rfl
    | failed i =>
      obtain ⟨-, rfl⟩ := @BoostCoServer.failed_cases heap s t i h
      rfl

/-- The node is the reply to the message: the id and the text of `HelloWordCallBack`, the text cut
to its length as a `short`. -/
structure RepliesTo (S : Server κ ε) (J : JsonCpp) (m : LogicNode) (n : SendNode) : Prop where
  readable : Readable J (S.payload m.recvNode)
  buffer : n.buffer = hostToNetworkShort (replyId J (S.payload m.recvNode)) ++
    hostToNetworkShort (short (replyText J (S.payload m.recvNode)).length) ++
      (replyText J (S.payload m.recvNode)).take
        (short (replyText J (S.payload m.recvNode)).length).toInt.toNat

/-- A node the constructor makes of a text. -/
theorem buffer_of_text {init : Nat → UInt8} {text : List UInt8} {msgid : Int16} {n : SendNode}
    (h : SendNode.new init (text ++ [0]) (short text.length) msgid = .ok n) :
    n.buffer = hostToNetworkShort msgid ++ hostToNetworkShort (short text.length) ++
      text.take (short text.length).toInt.toNat := by
  obtain ⟨h0, -, -, -, -, hbuf⟩ := sendNode_cases h
  have heq := short_toInt_eq text.length
  rw [hbuf, List.take_append_of_le_length (by omega)]

/-- The messages of session `i` whose callback has returned. -/
def World.handled (w : World κ) (i : Nat) : List LogicNode :=
  ofSession i ((done w.logic).filter LogicNode.registered)

/-- Session `i` has been sent replies to messages of it, in order. -/
def InReply (A : Accepts S) (J : JsonCpp) (w : World κ) (i : Nat) : Prop :=
  ∃ answered, answered.Sublist (w.handled i) ∧
    List.Forall₂ (RepliesTo S J) answered (A.accepted (w.sends i))

/-- How many messages of session `i` have been handled and not answered. -/
def unanswered (A : Accepts S) (i : Nat) (w : World κ) : Nat :=
  (w.handled i).length - (A.accepted (w.sends i)).length

/-- When the callback for a message of session `i` sends a reply, there is room in the queue. -/
def FindsRoom (S : Server κ ε) (J : JsonCpp) (i : Nat) (w : World κ) : WorldEvent ε → Prop
  | .callback => ∀ draining m, w.logic.worker = .deal draining m → m.session = i →
      S.Holds m.recvNode → Readable J (S.payload m.recvNode) →
        ¬ maxSendque < S.sendQueSize (w.sends i)
  | _ => True

/-- Session events are completions. -/
def Accepts.Quiet (A : Accepts S) : WorldEvent ε → Prop
  | .session _ e => A.completion e
  | _ => True

/-- What holds in the runs. -/
structure Answering (A : Accepts S) (J : JsonCpp) (w : World κ) : Prop where
  inOrder : InOrder w.logic
  inReply : ∀ i, InReply A J w i

theorem answering_init (A : Accepts S) : Answering A J ⟨Sys.init, fun _ => A.empty⟩ where
  inOrder := inOrder_init
  inReply i := ⟨[], List.Sublist.refl [], by
    show List.Forall₂ (RepliesTo S J) [] (A.accepted A.empty)
    rw [A.accepted_empty]
    exact List.Forall₂.nil⟩

/-- The replies are at most as many as the messages handled. -/
theorem InReply.length_le {A : Accepts S} {w : World κ} {i : Nat} (h : InReply A J w i) :
    (A.accepted (w.sends i)).length ≤ (w.handled i).length := by
  obtain ⟨answered, hsub, hall⟩ := h
  rw [← hall.length_eq]
  exact hsub.length_le

/-- Where a callback returns, its message has been readable, and `Send` has returned. -/
theorem returns_send (hJ : J.Documented) {w : World κ} {m : LogicNode} {s : κ}
    (h : S.callback J (w.sends m.session) m.recvNode = .ok s) :
    Readable J (S.payload m.recvNode) ∧
      S.send (w.sends m.session) (replyText J (S.payload m.recvNode))
        (replyId J (S.payload m.recvNode)) = .ok s := by
  rw [callback_holds (holds_of_callback h)] at h
  obtain ⟨hread, -⟩ := (helloWordCallBack_ok_iff hJ).mp ⟨s, h⟩
  rw [helloWordCallBack_readable hJ hread] at h
  refine ⟨hread, ?_⟩
  split at h
  · rename_i s' hs'
    rw [hs', Except.ok.inj h]
  · cases h

/-- The callback for `m` has returned. -/
theorem handled_answer {w : World κ} {draining : Bool} {m : LogicNode} {sends : Nat → κ}
    (h : InOrder w.logic) (hpc : w.logic.worker = .deal draining m) (i : Nat) :
    World.handled ⟨{ w.logic with worker := .pop draining }, sends⟩ i =
      w.handled i ++ if m.session = i then [m] else [] := by
  have hfront := h.front
  rw [hpc] at hfront
  obtain ⟨hhead, hreg⟩ := hfront
  obtain ⟨rest, hq⟩ := List.head?_eq_some_iff.mp hhead
  unfold World.handled
  rw [done_of_pop rfl, done_of_not_pop hpc nofun]
  show ofSession i ((w.logic.popped ++ w.logic.que.take 1).filter _) = _
  rw [hq, List.filter_append, ofSession_append]
  congr 1
  have hone : (List.take 1 (m :: rest)).filter LogicNode.registered = [m] := by
    simp [hreg]
  rw [hone]
  split_ifs with hm
  · exact ofSession_self hm
  · exact ofSession_other hm

/-- The callback ends the process only if it finds room, or its message cannot be read. -/
theorem findsRoom_of_harmful (hJ : J.Documented) {w : World κ} {i : Nat} {draining : Bool}
    {m : LogicNode} (hpc : w.logic.worker = .deal draining m)
    (hs : ∀ s, S.callback J (w.sends m.session) m.recvNode ≠ .ok s) :
    FindsRoom S J i w .callback := by
  rintro draining' m' hpc' rfl hholds hread hfull
  obtain ⟨rfl, rfl⟩ := WorkerPc.deal.inj (hpc.symm.trans hpc')
  obtain ⟨s, hs'⟩ := (harmless_iff hJ).mp ⟨hholds, hread, Or.inl hfull⟩
  exact hs s hs'

/-- A callback that returns for a message of session `i` sends the reply, or finds no room. -/
theorem inReply_answer (hJ : J.Documented) {A : Accepts S} {w t : World κ} {m : LogicNode} {s : κ}
    (hw : InReply A J w m.session) (hsends : t.sends m.session = s)
    (hhandled : t.handled m.session = w.handled m.session ++ [m])
    (hs : S.callback J (w.sends m.session) m.recvNode = .ok s) :
    InReply A J t m.session ∧
      (if maxSendque < S.sendQueSize (w.sends m.session) then
        A.accepted s = A.accepted (w.sends m.session)
      else (A.accepted s).length = (A.accepted (w.sends m.session)).length + 1) := by
  obtain ⟨answered, hsub, hall⟩ := hw
  obtain ⟨hread, hsend⟩ := returns_send hJ hs
  by_cases hfull : maxSendque < S.sendQueSize (w.sends m.session)
  · obtain rfl := A.send_full hfull hsend
    rw [if_pos hfull]
    refine ⟨⟨answered, ?_, hsends ▸ hall⟩, rfl⟩
    rw [hhandled]
    exact hsub.trans (List.sublist_append_left _ _)
  · obtain ⟨init, n, hn, hacc⟩ := A.send_room hfull hsend
    rw [if_neg hfull]
    refine ⟨⟨answered ++ [m], ?_, ?_⟩, ?_⟩
    · rw [hhandled]
      exact hsub.append (List.Sublist.refl [m])
    · rw [hsends, hacc]
      exact List.rel_append hall
        (List.Forall₂.cons ⟨hread, buffer_of_text hn⟩ List.Forall₂.nil)
    · rw [hacc, List.length_append, List.length_singleton]

theorem answering_step (hJ : J.Documented) (A : Accepts S) (w : World κ) (e : WorldEvent ε)
    (t : World κ) (hw : Answering A J w) (he : A.Quiet e) (h : w.step S J e = some t) :
    Answering A J t ∧ ∀ i, (FindsRoom S J i w e → unanswered A i t = unanswered A i w) ∧
      (¬ FindsRoom S J i w e → unanswered A i w < unanswered A i t) := by
  have hsame : (∀ i, t.handled i = w.handled i) →
      (∀ i, A.accepted (t.sends i) = A.accepted (w.sends i)) → InOrder t.logic →
      (∀ i, FindsRoom S J i w e) →
      Answering A J t ∧ ∀ i, (FindsRoom S J i w e → unanswered A i t = unanswered A i w) ∧
        (¬ FindsRoom S J i w e → unanswered A i w < unanswered A i t) := by
    intro hhandled haccepted hin hroom
    refine ⟨⟨hin, fun i => ?_⟩, fun i => ⟨fun _ => ?_, fun hnot => absurd (hroom i) hnot⟩⟩
    · unfold InReply
      rw [hhandled i, haccepted i]
      exact hw.inReply i
    · unfold unanswered
      rw [hhandled i, haccepted i]
  cases world_moves h with
  | logic e l hcallback hl =>
    obtain ⟨hin, hdone⟩ := inOrder_moves hw.inOrder hcallback (step_moves hl)
    exact hsame (fun i => congrArg (ofSession i) hdone) (fun i => rfl) hin (fun i => trivial)
  | harmful draining m pc hpc hend hs =>
    have hout : ∀ draining, pc ≠ .pop draining := by
      rintro draining rfl
      rcases hend with hend | hend <;> cases hend
    refine hsame (fun i => ?_) (fun i => rfl) ⟨hw.inOrder.order, ?_⟩
      fun i => findsRoom_of_harmful hJ hpc hs
    · unfold World.handled
      rw [done_of_not_pop hpc nofun, done_of_not_pop rfl hout]
    · rcases hend with rfl | rfl <;> trivial
  | session i e s hs =>
    refine hsame (fun j => rfl) (fun j => ?_) hw.inOrder (fun j => trivial)
    show A.accepted (Function.update w.sends i s j) = _
    by_cases hj : j = i
    · rw [hj, Function.update_self]
      exact A.completion_accepted he hs
    · rw [Function.update_of_ne hj]
  | answer draining m s hpc hs =>
    have hhandled := fun i =>
      @handled_answer κ w draining m (Function.update w.sends m.session s) hw.inOrder hpc i
    have hself := hhandled m.session
    rw [if_pos rfl] at hself
    obtain ⟨hreply, hcount⟩ := inReply_answer hJ (hw.inReply m.session)
      (Function.update_self m.session s w.sends) hself hs
    have hothers : ∀ i, i ≠ m.session → World.handled
        ⟨{ w.logic with worker := .pop draining }, Function.update w.sends m.session s⟩ i =
          w.handled i := fun i hi => by
      rw [hhandled i, if_neg (Ne.symm hi), List.append_nil]
    refine ⟨⟨?_, fun i => ?_⟩, fun i => ?_⟩
    · have hfront := hw.inOrder.front
      rw [hpc] at hfront
      refine ⟨hw.inOrder.order, fun hnil => ?_⟩
      rw [show w.logic.que = [] from hnil] at hfront
      cases hfront.1
    · by_cases hi : i = m.session
      · rw [hi]
        exact hreply
      · unfold InReply
        dsimp only
        rw [hothers i hi, Function.update_of_ne hi]
        exact hw.inReply i
    · unfold unanswered
      dsimp only
      by_cases hi : i = m.session
      · subst hi
        have hle := (hw.inReply m.session).length_le
        rw [hself, Function.update_self, List.length_append, List.length_singleton]
        split_ifs at hcount with hfull
        · have hnot : ¬ FindsRoom S J m.session w .callback := fun hroom =>
            hroom draining m hpc rfl (holds_of_callback hs) (returns_send hJ hs).1 hfull
          rw [hcount]
          exact ⟨fun hroom => absurd hroom hnot, fun _ => by omega⟩
        · have hroom : FindsRoom S J m.session w .callback := by
            rintro draining' m' hpc' hm - -
            rwa [← hm] at hfull ⊢
          rw [hcount]
          exact ⟨fun _ => by omega, fun hnot => absurd hroom hnot⟩
      · have hroom : FindsRoom S J i w .callback := by
          rintro draining' m' hpc' rfl - -
          obtain ⟨-, rfl⟩ := WorkerPc.deal.inj (hpc.symm.trans hpc')
          exact absurd rfl hi
        rw [hothers i hi, Function.update_of_ne hi]
        exact ⟨fun _ => rfl, fun hnot => absurd hroom hnot⟩

/-! ## Whole runs -/

/-- What a session has been sent after a run in which the handlers post and the callbacks send. -/
def AnswersInOrder (A : Accepts S) (J : JsonCpp) : Prop :=
  ∀ es w, run (World.step S J) ⟨Sys.init, fun _ => A.empty⟩ es = some w →
    (∀ e ∈ es, e.Own ∧ A.Quiet e) → ∀ i,
      w.handled i <+: (postedBy i es).filter LogicNode.registered ∧
      (w.logic.que = [] → w.logic.posters i = .idle →
        w.handled i = (postedBy i es).filter LogicNode.registered) ∧
      ∃ answered, answered.Sublist (w.handled i) ∧
        List.Forall₂ (RepliesTo S J) answered (A.accepted (w.sends i)) ∧
        (answered = w.handled i ↔
          Meets (World.step S J) (FindsRoom S J i) ⟨Sys.init, fun _ => A.empty⟩ es)

theorem answersInOrder (hJ : J.Documented) (A : Accepts S) : AnswersInOrder A J := by
  intro es w h hes i
  have hposted := arrived_run (fun k m hm => absurd hm List.not_mem_nil)
    (fun e he => (hes e he).1) h i
  rw [show arrived (⟨Sys.init, fun _ => A.empty⟩ : World κ).logic i = [] from rfl,
    List.nil_append] at hposted
  have hw : Answering A J w :=
    run_invariant_of_meets (fun s e t hs he hstep => (answering_step hJ A s e t hs he hstep).1)
      (answering_init A) (meets_of_forall fun e he => (hes e he).2) h
  have hin := hw.inOrder
  refine ⟨?_, fun hq hidle => ?_, ?_⟩
  · unfold World.handled
    rw [ofSession_filter, ← hposted]
    exact ((hin.done_prefix.filter _).trans (List.prefix_append _ _)).filter _
  · have hall : done w.logic = w.logic.pushed := by
      rw [← hin.order, hq]
      unfold done
      rw [hq]
      split <;> rfl
    unfold World.handled
    rw [ofSession_filter, hall, ← hposted, arrived, hidle]
    exact congrArg _ (List.append_nil _).symm
  · obtain ⟨answered, hsub, hreplies⟩ := hw.inReply i
    have hcount : ∀ (s : World κ) (e : WorldEvent ε) t, Answering A J s → A.Quiet e →
        s.step S J e = some t → Answering A J t ∧
          (FindsRoom S J i s e → unanswered A i t = unanswered A i s) ∧
          (¬ FindsRoom S J i s e → unanswered A i s < unanswered A i t) := by
      intro s e t hs he hstep
      obtain ⟨ht, hcount⟩ := answering_step hJ A s e t hs he hstep
      exact ⟨ht, hcount i⟩
    obtain ⟨-, hiff⟩ := run_count_iff hcount (answering_init A) (fun e he => (hes e he).2) h
    have hstart : unanswered A i (⟨Sys.init, fun _ => A.empty⟩ : World κ) = 0 := Nat.zero_sub _
    have hlength := hreplies.length_eq
    have hle := hsub.length_le
    refine ⟨answered, hsub, hreplies, Iff.trans ?_ hiff⟩
    rw [hstart]
    unfold unanswered
    constructor
    · rintro rfl
      omega
    · intro hzero
      exact hsub.eq_of_length_le (by omega)

/-- **Requests are answered in order**, by both servers and whatever the other sessions do. -/
theorem replies_in_order (hJ : J.Documented) (heap : Nat → Nat → UInt8) :
    AnswersInOrder LogicServer.accepts J ∧ AnswersInOrder (BoostCoServer.accepts heap) J :=
  ⟨answersInOrder hJ _, answersInOrder hJ _⟩

/-- A request is posted and taken to its callback. -/
def dealtEvents (ε : Type) : List (WorldEvent ε) :=
  [.logic (.post 0 (textNode helloText))] ++ List.replicate 5 (.logic (.poster 0)) ++
    List.replicate 5 (.logic .worker)

/-- The request is answered. -/
def helloEvents (ε : Type) : List (WorldEvent ε) := dealtEvents ε ++ [.callback]

theorem replies_in_order_hello : ∃ w,
    run (World.step logicServer sampleJson) ⟨Sys.init, fun _ => .empty⟩ (helloEvents _) = some w ∧
      w.handled 0 <+: (postedBy 0 (helloEvents LogicServer.SendEvent)).filter
        LogicNode.registered ∧
      (w.logic.que = [] → w.logic.posters 0 = .idle →
        w.handled 0 = (postedBy 0 (helloEvents LogicServer.SendEvent)).filter
          LogicNode.registered) ∧
      ∃ answered, answered.Sublist (w.handled 0) ∧
        List.Forall₂ (RepliesTo logicServer sampleJson) answered (w.sends 0).accepted ∧
        (answered = w.handled 0 ↔ Meets (World.step logicServer sampleJson)
          (FindsRoom logicServer sampleJson 0) ⟨Sys.init, fun _ => .empty⟩ (helloEvents _)) := by
  have hpayload : logicServer.payload (textNode helloText).recvNode = helloText :=
    (@payload_textNode helloText (by decide +kernel)).1
  obtain ⟨w, hrun, hpc, hsends⟩ : ∃ w : World LogicServer.SendSide,
      run (World.step logicServer sampleJson) ⟨Sys.init, fun _ => .empty⟩ (dealtEvents _) =
        some w ∧
        w.logic.worker = .deal false (textNode helloText) ∧ w.sends = fun _ => .empty :=
    ⟨_, rfl, rfl, rfl⟩
  have hholds : logicServer.Holds (textNode helloText).recvNode := by decide +kernel
  obtain ⟨s, hcall⟩ := callback_harmless sampleJson_documented hpc
    ⟨hholds, by rw [hpayload]; exact readable_hello, by
      rw [hpayload]
      exact Or.inr (by decide +kernel)⟩
  refine ⟨_, run_snoc hrun hcall, (replies_in_order sampleJson_documented fun _ _ => 0).1
    (helloEvents _) _ (run_snoc hrun hcall) ?_ 0⟩
  intro e he
  simp only [helloEvents, dealtEvents, List.mem_append, List.mem_singleton,
    List.mem_replicate] at he
  rcases he with ((rfl | ⟨-, rfl⟩) | ⟨-, rfl⟩) | rfl <;> exact ⟨by trivial, trivial⟩

end AsioLearn
