/-
# What becomes of a message

Three questions about the messages that pass through the two queues, asked of every run of
the server, whatever the interleaving of its two threads: is a message ever lost, is it ever
sent twice or to a connection whose callback did not pop it, and are messages sent in the
order in which they were posted?
-/
import Headcrab.ServerRuns

namespace Headcrab

namespace Server

open BoundedFifo (given accepted popped)

variable {W V P F : Type} [DecidableEq W] {J : Codec P V F}
  {C : Server W V → Action W V P → Prop} {tr : List (Event W V F)} {s : Server W V}

/-! ## No message is lost, except by a full queue -/

/-- No message is lost: what a queue was given has been popped, once, or is waiting. -/
def NothingLost (k : MQ) (tr : List (Event W V F)) (s : Server W V) : Prop :=
  (given (fifoEvents k tr)).Perm (popped (fifoEvents k tr) ++ (s.queues k).1.contents)

/-- **Conservation of the queues.**  A value that is pushed while fewer than `MQ_LEN` values
wait is, from then on, waiting in its queue or returned by exactly one pop, in the order of
the pushes.  A push onto `MQ_LEN` waiting values is refused: it leaves the queue as it is. -/
theorem pushed_waits_or_popped (hr : (machine W J).Reach tr s) (k : MQ) :
    accepted (fifoEvents k tr) = popped (fifoEvents k tr) ++ (s.queues k).1.contents ∧
      ∀ a s' es v b, (machine W J).step s a = some (s', es) → .push k v b ∈ es →
        (b = true ↔ (s.queues k).1.contents.length < MQ_LEN) ∧
        (b = false → (s'.queues k).1.contents = (s.queues k).1.contents) := by
  obtain ⟨hcons, hcap⟩ := queues_conserved hr k
  refine ⟨hcons, fun a s' es v b hstep hmem => ?_⟩
  -- the only steps that show a push are the two that push
  have key : ∀ k₀ v₀, s'.queues = s.queues.push k₀ v₀ →
      (Event.push k v b : Event W V F) ∈ [.push k₀ v₀ (s.queues k₀).hasRoom] →
      (b = true ↔ (s.queues k).1.contents.length < MQ_LEN) ∧
        (b = false → (s'.queues k).1.contents = (s.queues k).1.contents) := by
    intro k₀ v₀ hq hmem
    simp only [List.mem_singleton, Event.push.injEq] at hmem
    obtain ⟨rfl, rfl, rfl⟩ := hmem
    rw [Ring.hasRoom_eq, hcap]
    refine ⟨decide_eq_true_iff, fun hfull => ?_⟩
    have hfull' : ¬ (s.queues k).fifo.items.length < (s.queues k).fifo.capacity := by
      rw [hcap]
      simpa using hfull
    have hsame := congrArg BoundedFifo.items (BoundedFifo.push_full hfull' v)
    rw [← Rings.fifo_push_self, ← hq] at hsame
    exact hsame
  cases step_effect hstep with
  | quiet _ _ => simp at hmem
  | receive w p _ hq _ => exact key _ _ hq hmem
  | post m _ hq _ => exact key _ _ hq hmem
  | pop k₀ _ _ _ => split at hmem <;> simp at hmem
  | take _ _ _ _ _ _ _ _ => simp at hmem
  | write _ _ _ _ _ _ _ _ => simp at hmem

/-- Numbers as messages, each its own payload and its own text. -/
def natCodec : Codec ℕ ℕ ℕ := ⟨some, some⟩

/-- One connection; a post, and the broadcast that writes it. -/
def firstFrame : List (Action Unit ℕ ℕ) :=
  [.establish (), .post (some 0), .notify [()], .broadcast, .appStep true, .appStep true,
    .appStep true, .broadcast]

/-- The service thread writes the second message, and the third one waits. -/
def twoFrames : List (Action Unit ℕ ℕ) :=
  firstFrame ++
  [.post (some 1), .writeable (), .serviceStep true, .serviceStep true, .serviceStep true,
    .notify [()], .broadcast, .appStep true, .broadcast, .post (some 2), .notify [()]]

theorem pushed_waits_or_popped_twoFrames : ∃ tr s, (machine Unit natCodec).Reach tr s ∧
    popped (fifoEvents .MQ_OUT tr) = [some 0, some 1] ∧
    (s.queues .MQ_OUT).1.contents = [some 2] ∧
    accepted (fifoEvents .MQ_OUT tr)
      = popped (fifoEvents .MQ_OUT tr) ++ (s.queues .MQ_OUT).1.contents := by
  obtain ⟨tr, s, hr, hpopped, hcontents⟩ := Runs.Machine.run_of_exec (M := machine Unit natCodec)
    (C := fun _ _ => True) (P := fun tr s => popped (fifoEvents .MQ_OUT tr) = [some 0, some 1] ∧
      (s.queues .MQ_OUT).1.contents = [some 2])
    twoFrames ⟨_, rfl, by decide⟩
  exact ⟨tr, s, hr, hpopped, hcontents, (pushed_waits_or_popped hr .MQ_OUT).1⟩

/-- Without a connection, nothing takes a posted message from the out-queue. -/
lemma exists_burst (n : ℕ) : ∃ tr s, (machine Unit natCodec).Reach tr s ∧
    s = { init Unit ℕ with queues := s.queues } ∧
    (given (fifoEvents .MQ_OUT tr)).length = n ∧ popped (fifoEvents .MQ_OUT tr) = [] := by
  induction n with
  | zero => exact ⟨[], _, .init, rfl, rfl, rfl⟩
  | succ n ih =>
    obtain ⟨tr, s, hr, hs, hgiven, hpopped⟩ := ih
    rw [hs] at hr
    -- the post, and a broadcast that finds no connection to call
    have h₁ := hr.step (a := .post (some n)) trivial rfl
    have h₂ := h₁.step (a := .notify []) trivial rfl
    have h₃ := h₂.step (a := .broadcast) trivial rfl
    refine ⟨_, _, h₃, rfl, ?_, ?_⟩
    · simp only [List.append_nil, fifoEvents_append, BoundedFifo.given_append,
        List.length_append, hgiven]
      rfl
    · simp only [List.append_nil, fifoEvents_append, BoundedFifo.popped_append, hpopped]
      rfl

/-- A burst of posts with no connection open loses a message. -/
theorem burst_loses_message : ∃ tr s, (machine Unit natCodec).Reach tr s ∧
    ¬ NothingLost .MQ_OUT tr s := by
  obtain ⟨tr, s, hr, -, hgiven, hpopped⟩ := exists_burst (MQ_LEN + 1)
  refine ⟨tr, s, hr, fun hlost => ?_⟩
  have hlen : (s.queues .MQ_OUT).1.contents.length = MQ_LEN + 1 := by
    simpa [hpopped, hgiven] using hlost.length_eq.symm
  have hcap : (s.queues .MQ_OUT).1.contents.length ≤ MQ_LEN := by
    rw [← (queues_conserved hr .MQ_OUT).2]
    exact (s.queues .MQ_OUT).fifo.length_le
  omega

/-! ## A message is taken once and sent at most once -/

lemma map_some_filterMap_id {l : List (Option V)} (h : ∀ v ∈ l, v ≠ none) :
    (l.filterMap id).map some = l := by
  induction l with
  | nil => rfl
  | cons v l ih =>
    obtain ⟨m, rfl⟩ := Option.ne_none_iff_exists'.mp (h v (by simp))
    simpa using ih fun v hv => h v (by simp [hv])

/-- The host program posts messages, not `NULL`. -/
def PostsMessages (_ : Server W V) (a : Action W V P) : Prop := ∀ m, a = .post m → m ≠ none

/-- The out-queue takes no `NULL`. -/
lemma accepted_ne_none (hr : (machine W J).Run PostsMessages tr s) :
    ∀ v ∈ accepted (fifoEvents .MQ_OUT tr), v ≠ none := by
  refine hr.invariant (I := fun tr _ => ∀ v ∈ accepted (fifoEvents .MQ_OUT tr), v ≠ none)
    (by simp [fifoEvents]) ?_
  intro tr s a s' es ih hC hstep v hv
  rw [fifoEvents_append, BoundedFifo.accepted_append, List.mem_append] at hv
  rcases hv with hv | hv
  · exact ih v hv
  · cases step_effect hstep with
    | quiet _ _ => simp [fifoEvents] at hv
    | receive _ _ _ _ _ => simp [fifoEvents] at hv
    | post m ha _ _ =>
      simp only [fifoEvents, List.filterMap_cons, if_true, List.filterMap_nil,
        BoundedFifo.accepted_push] at hv
      split at hv
      · rw [List.mem_singleton] at hv
        exact hv ▸ hC m ha
      · simp at hv
    | pop k _ _ _ => split at hv <;> cases k <;> simp [fifoEvents, accepted] at hv
    | take _ _ _ _ _ _ _ _ => simp [fifoEvents, accepted] at hv
    | write _ _ _ _ _ _ _ _ => simp [fifoEvents] at hv

/-- Every value that was popped from the out-queue went to a callback. -/
lemma popped_eq_allTakes (hr : (machine W J).Run PostsMessages tr s) :
    popped (fifoEvents .MQ_OUT tr) = (allTakes tr).map fun x => some x.2 := by
  have hcons := (queues_conserved hr .MQ_OUT).1
  rw [BoundedFifo.Conserved] at hcons
  have hall : ∀ v ∈ popped (fifoEvents .MQ_OUT tr), v ≠ none := fun v hv =>
    accepted_ne_none hr v (by rw [hcons]; exact List.mem_append_left _ hv)
  rw [← map_some_filterMap_id hall, ← allTakes_eq hr, List.map_map]
  rfl

/-- **Each posted message is taken once and sent at most once.**  The messages popped by
callbacks, over all connections and both threads, followed by the waiting ones, are exactly
the accepted posts; what the callbacks of a thread write is, in order, what they popped, for
the same connection, but for a last message that may not have been written; and what is
written is the text of the message. -/
theorem taken_once_sent_once (hr : (machine W J).Run PostsMessages tr s) :
    accepted (fifoEvents .MQ_OUT tr)
        = (allTakes tr).map (fun x => some x.2) ++ (s.queues .MQ_OUT).1.contents ∧
      (∀ t, writes t tr <+: takes t tr) ∧
      ∀ t w m frame, .write t w m frame ∈ tr → J.dumps m = some frame := by
  refine ⟨?_, fun t => ⟨s.inFlight t, (takes_eq hr t).symm⟩, fun t w m frame h => frame_eq hr h⟩
  have hcons := (queues_conserved hr .MQ_OUT).1
  rw [BoundedFifo.Conserved] at hcons
  rw [hcons, popped_eq_allTakes hr]
  rfl

instance [DecidableEq V] [DecidableEq P] (s : Server W V) (a : Action W V P) :
    Decidable (PostsMessages s a) :=
  decidable_of_iff (a ≠ .post none)
    ⟨fun h _ ha hm => h (hm ▸ ha), fun h ha => h none ha rfl⟩

/-- One connection and three posts.  The service thread pops the second message for a
writable callback, and writes it after the broadcast has written the third. -/
def overtaking : List (Action Unit ℕ ℕ) :=
  firstFrame ++
  [.post (some 1), .writeable (), .serviceStep true, .notify [()], .broadcast, .appStep true,
    .broadcast,
    .post (some 2), .notify [()], .broadcast, .appStep true, .appStep true, .serviceStep true]

theorem taken_once_sent_once_overtaking : ∃ tr s,
    (machine Unit natCodec).Run PostsMessages tr s ∧ allWrites tr = [((), 0), ((), 2), ((), 1)] ∧
    accepted (fifoEvents .MQ_OUT tr)
      = (allTakes tr).map (fun x => some x.2) ++ (s.queues .MQ_OUT).1.contents := by
  obtain ⟨tr, s, hr, hwrites⟩ := Runs.Machine.run_of_exec (M := machine Unit natCodec)
    (C := PostsMessages) (P := fun tr _ => allWrites tr = [((), 0), ((), 2), ((), 1)])
    overtaking ⟨_, rfl, by decide⟩
  exact ⟨tr, s, hr, hwrites, (taken_once_sent_once hr).1⟩

/-! ## The order in which messages are sent -/

/-- A callback pops only while no other callback holds a message it has popped. -/
def Serialized (s : Server W V) (a : Action W V P) : Prop :=
  ∀ t, s.popping a = some t → ∀ t', s.inFlight t' = []

/-- The messages written to a connection, in order. -/
def writtenTo (w : W) (tr : List (Event W V F)) : List V :=
  ((allWrites tr).filter fun x => x.1 = w).map Prod.snd

/-- The messages written to a connection are in the order in which they were posted. -/
def InPostOrder (w : W) (tr : List (Event W V F)) : Prop :=
  (writtenTo w tr).Sublist ((given (fifoEvents .MQ_OUT tr)).filterMap id)

instance {p : Thread → Prop} [DecidablePred p] : Decidable (∀ t, p t) :=
  decidable_of_iff (p .app ∧ p .service)
    ⟨fun h t => by cases t; exacts [h.1, h.2], fun h => ⟨h _, h _⟩⟩

instance [DecidableEq V] (s : Server W V) (a : Action W V P) : Decidable (Serialized s a) :=
  inferInstanceAs (Decidable (∀ t, s.popping a = some t → ∀ t', s.inFlight t' = []))

instance [DecidableEq V] (w : W) (tr : List (Event W V F)) : Decidable (InPostOrder w tr) :=
  inferInstanceAs (Decidable (List.Sublist _ _))

/-- In a run whose pops are serialized, what has been written is, in order, what has been
popped, but for at most one message that some callback holds. -/
lemma allTakes_eq_of_serialized (hr : (machine W J).Run Serialized tr s) :
    allTakes tr = allWrites tr ++ s.inFlight .app ++ s.inFlight .service ∧
      (s.inFlight .app = [] ∨ s.inFlight .service = []) := by
  refine hr.invariant (I := fun tr s =>
    allTakes tr = allWrites tr ++ s.inFlight .app ++ s.inFlight .service ∧
      (s.inFlight .app = [] ∨ s.inFlight .service = [])) ⟨rfl, Or.inl rfl⟩ ?_
  rintro tr s a s' es ⟨ih, hone⟩ hC hstep
  rw [allTakes_append, allWrites_append, ih]
  cases step_effect hstep with
  | quiet _ hf => simpa [hf, allTakes, allWrites] using hone
  | receive _ _ _ _ hf | post _ _ _ hf => simpa [hf, allTakes, allWrites] using hone
  | pop k _ _ hf => split <;> simpa [hf, allTakes, allWrites] using hone
  | take t w m hpop _ _ _ hf =>
    have hnone := hC t hpop
    cases t <;> simp [hf, hnone, allTakes, allWrites]
  | write t w m frame _ _ hheld hf =>
    -- the other thread holds nothing, so the message written is the last one popped
    cases t with
    | app =>
      have hother : s.inFlight .service = [] := by simpa [hheld] using hone
      simp [hf, hheld, hother, allTakes, allWrites]
    | service =>
      have hother : s.inFlight .app = [] := by simpa [hheld] using hone
      simp [hf, hheld, hother, allTakes, allWrites]

/-- What the out-queue gave was posted, in that order. -/
lemma popped_sublist_given (hr : (machine W J).Run C tr s) :
    (popped (fifoEvents .MQ_OUT tr)).Sublist (given (fifoEvents .MQ_OUT tr)) := by
  have h₁ : popped (fifoEvents .MQ_OUT tr) <+: accepted (fifoEvents .MQ_OUT tr) :=
    ⟨_, (queues_conserved hr .MQ_OUT).1.symm⟩
  exact h₁.sublist.trans BoundedFifo.accepted_sublist_given

/-- **Frames reach a client in post order, as long as pops are serialized.** -/
theorem in_post_order (hr : (machine W J).Run Serialized tr s) (w : W) : InPostOrder w tr := by
  obtain ⟨htakes, -⟩ := allTakes_eq_of_serialized hr
  have h₁ : (writtenTo w tr).Sublist ((allWrites tr).map Prod.snd) :=
    List.filter_sublist.map Prod.snd
  have h₂ : ((allWrites tr).map Prod.snd).Sublist ((allTakes tr).map Prod.snd) := by
    rw [htakes, List.append_assoc]
    exact (List.sublist_append_left _ _).map Prod.snd
  rw [allTakes_eq hr] at h₂
  exact (h₁.trans h₂).trans ((popped_sublist_given hr).filterMap id)

theorem in_post_order_twoFrames : ∃ tr s,
    (machine Unit natCodec).Run Serialized tr s ∧ writtenTo () tr = [0, 1] ∧
    given (fifoEvents .MQ_OUT tr) = [some 0, some 1, some 2] ∧ InPostOrder () tr := by
  obtain ⟨tr, s, hr, hwritten, hgiven⟩ := Runs.Machine.run_of_exec (M := machine Unit natCodec)
    (C := Serialized) (P := fun tr _ => writtenTo () tr = [0, 1] ∧
      given (fifoEvents .MQ_OUT tr) = [some 0, some 1, some 2]) twoFrames ⟨_, rfl, by decide⟩
  exact ⟨tr, s, hr, hwritten, hgiven, in_post_order hr ()⟩

/-- The two threads write the second and the third message in the wrong order. -/
theorem overtaking_not_in_post_order : ∃ tr s, (machine Unit natCodec).Reach tr s ∧
    ¬ InPostOrder () tr :=
  Runs.Machine.run_of_exec overtaking ⟨_, rfl, by decide⟩

end Server

end Headcrab
