/-
# Starting and stopping the server

`headcrab_init` makes a context and starts the service thread; `headcrab_shutdown` clears the
flag that the loop of the thread tests, and joins the thread.  The flag, the context and the
identity of the thread are static variables, so a sequence of calls works on what the calls
before have left, and `headcrab_init` calls `headcrab_shutdown` when it fails.  The flag is
set once, where it is declared.

This file runs any sequence of these calls beside the service threads that they start.

* `joins_matched_iff`: when each `pthread_join` has its thread, and a failed start leaves the
  other threads alone;
* `serves_while_up_iff`: when a successful start yields a server that runs.
-/
import Headcrab.Lib.Runs

namespace Headcrab

/-- Where a thread stands in `websocket_thread`. -/
inductive ServiceThread
  /-- The loop tests `running`. -/
  | testing
  /-- `libwebsocket_service` is called next. -/
  | serving
  /-- `libwebsocket_context_destroy` is called next. -/
  | leaving
  | ended
deriving DecidableEq, Repr

/-- A call of the host program. -/
inductive HostCall
  /-- `headcrab_init`; the flags say whether `libwebsocket_create_context` returns a context,
  and whether `pthread_create` then starts the thread. -/
  | init (created started : Bool)
  | shutdown
deriving DecidableEq, Repr

/-- The static variables of the server, with the contexts and threads there have been, both
by number. -/
structure Lifecycle where
  running : Bool
  context : Option ℕ
  /-- No thread, at first and after a `pthread_create` that failed. -/
  tid : Option ℕ
  /-- The number of contexts created. -/
  contexts : ℕ
  destroyed : List ℕ
  threads : List ServiceThread
  /-- The `pthread_join` that the host program waits in. -/
  joining : Option (Option ℕ)
  /-- `headcrab_init` has returned `HC_SUCCESS`, and no `headcrab_shutdown` has begun since. -/
  up : Bool
  /-- The process has ended, by an access to a context that is not there. -/
  halted : Bool
deriving DecidableEq, Repr

/-- What is seen of the calls. -/
inductive HostEvent
  /-- A call, with the threads that it starts, and those that it takes out of their loop. -/
  | call (c : HostCall) (starts stops : List ℕ)
  /-- `pthread_join` is called. -/
  | join (target : Option ℕ)
deriving DecidableEq, Repr

inductive LifecycleAction
  | call (c : HostCall)
  /-- `pthread_join` returns. -/
  | joined
  /-- The next step of a service thread. -/
  | thread (k : ℕ)
deriving DecidableEq, Repr

namespace Lifecycle

/-- The process before any call. -/
def init : Lifecycle := ⟨true, none, none, 0, [], [], none, false, false⟩

/-- The thread is in the loop of `websocket_thread`. -/
def InLoop (s : Lifecycle) (k : ℕ) : Prop :=
  s.threads[k]? = some .testing ∨ s.threads[k]? = some .serving

instance (s : Lifecycle) (k : ℕ) : Decidable (s.InLoop k) := inferInstanceAs (Decidable (_ ∨ _))

/-- The threads that stop when `running` is cleared, and would not stop otherwise. -/
def stops (s : Lifecycle) : List ℕ :=
  if s.running then (List.range s.threads.length).filter fun k => s.InLoop k else []

/-- `websocket_initialize`, which ignores what `pthread_create` returns: whether it returns 0,
the threads that it starts, and the variables afterwards. -/
def websocket_initialize (s : Lifecycle) (created started : Bool) : Bool × List ℕ × Lifecycle :=
  if created then
    let s := { s with context := some s.contexts, contexts := s.contexts + 1 }
    if started then
      (true, [s.threads.length],
        { s with tid := some s.threads.length, threads := s.threads ++ [.testing] })
    else (true, [], { s with tid := none })
  else (false, [], { s with context := none })

/-- `websocket_shutdown`, up to the return of `pthread_join`. -/
def websocket_shutdown (s : Lifecycle) : Lifecycle × List HostEvent :=
  ({ s with running := false, joining := some s.tid, up := false }, [.join s.tid])

/-- `headcrab_init`. -/
def headcrab_init (s : Lifecycle) (created started : Bool) : Lifecycle × List HostEvent :=
  match websocket_initialize s created started with
  | (true, starts, s') => ({ s' with up := true }, [.call (.init created started) starts []])
  | (false, starts, s') =>
    let (s', es) := s'.websocket_shutdown
    (s', .call (.init created started) starts s.stops :: es)

/-- `headcrab_shutdown`. -/
def headcrab_shutdown (s : Lifecycle) : Lifecycle × List HostEvent :=
  let (s', es) := s.websocket_shutdown
  (s', .call .shutdown [] s.stops :: es)

/-- A step of `websocket_thread`, from where the thread stands. -/
def websocket_thread (s : Lifecycle) (k : ℕ) : ServiceThread → Option Lifecycle
  | .testing =>
    some { s with threads := s.threads.set k (if s.running then .serving else .leaving) }
  | .serving =>
    match s.context with
    -- `libwebsocket_service` returns at once for `NULL`
    | none => some { s with threads := s.threads.set k .testing }
    | some c =>
      if c ∈ s.destroyed then some { s with halted := true }
      else some { s with threads := s.threads.set k .testing }
  | .leaving =>
    match s.context with
    | none => some { s with halted := true }
    | some c =>
      if c ∈ s.destroyed then some { s with halted := true }
      else some { s with destroyed := c :: s.destroyed, threads := s.threads.set k .ended }
  | .ended => none

/-- The step of an action. -/
def act (s : Lifecycle) : LifecycleAction → Option (Lifecycle × List HostEvent)
  | .call c =>
    if s.joining = none then
      match c with
      | .init created started => some (s.headcrab_init created started)
      | .shutdown => some s.headcrab_shutdown
    else none
  | .joined =>
    match s.joining with
    | some target =>
      if ∀ k ∈ target, s.threads[k]? = some .ended then some ({ s with joining := none }, [])
      else none
    | none => none
  | .thread k => (s.threads[k]?.bind fun t => s.websocket_thread k t).map fun s' => (s', [])

/-- A step; a process that has ended makes none. -/
def step (s : Lifecycle) (a : LifecycleAction) : Option (Lifecycle × List HostEvent) :=
  if s.halted then none else act s a

/-- The calls and the service threads as a system. -/
def machine : Runs.Machine Lifecycle LifecycleAction HostEvent where
  init := init
  step := step

/-! ## What a history shows -/

/-- The calls of the host program, in order. -/
def calls (tr : List HostEvent) : List HostCall :=
  tr.filterMap fun
    | .call c _ _ => some c
    | .join _ => none

/-- The threads started. -/
def started (tr : List HostEvent) : List ℕ :=
  tr.flatMap fun
    | .call _ starts _ => starts
    | .join _ => []

/-- A join is of a thread that was started and has not been joined, and a start that fails
starts no thread and stops none. -/
def Orderly (past : List HostEvent) : HostEvent → Prop
  | .join target => ∃ k ∈ started past, target = some k ∧ .join (some k) ∉ past
  | .call (.init false _) starts stops => starts = [] ∧ stops = []
  | .call _ _ _ => True

/-- **Join is matched with create**, and a failed start leaves the threads alone. -/
def JoinsMatched (tr : List HostEvent) : Prop := Runs.EachAfter Orderly tr

end Lifecycle

/-- The call runs `websocket_shutdown`. -/
def HostCall.shutsDown : HostCall → Bool
  | .init created _ => !created
  | .shutdown => true

/-- A call that joins comes directly after one that started a thread; and if it is a start
that fails, the flag has been cleared already. -/
def HostCall.Prepared (past : List HostCall) (c : HostCall) : Prop :=
  c.shutsDown = true → past.getLast? = some (.init true true) ∧
    (c ≠ .shutdown → ∃ d ∈ past, d.shutsDown = true)

namespace Lifecycle

/-- A thread is in its service loop, the flag that the loop tests is set, and the context that
it serves is there. -/
def Serves (s : Lifecycle) : Prop :=
  s.running = true ∧ (∃ k, s.InLoop k) ∧ ∃ c, s.context = some c ∧ c ∉ s.destroyed

/-- **A successful init yields a running server**, until the next shutdown begins. -/
def ServesWhileUp (s : Lifecycle) : Prop := s.up = true → s.Serves

section Histories

variable (tr tr' : List HostEvent)

@[simp] lemma calls_append : calls (tr ++ tr') = calls tr ++ calls tr' := List.filterMap_append ..

@[simp] lemma started_append : started (tr ++ tr') = started tr ++ started tr' :=
  List.flatMap_append

end Histories

/-- What the static variables are after a history. -/
structure Inv (tr : List HostEvent) (s : Lifecycle) : Prop where
  /-- The flag is set until the first shutdown. -/
  running : s.running = true ↔ ∀ c ∈ calls tr, c.shutsDown = false
  /-- Until then, every thread is in its loop, and serves the last context. -/
  inLoop : s.running = true → ∀ k < s.threads.length, s.InLoop k
  context : s.running = true → s.destroyed = [] ∧ (s.threads ≠ [] → s.context ≠ none)
  starts : ∀ k, k ∈ started tr ↔ k < s.threads.length
  threads : s.threads = [] ↔ .init true true ∉ calls tr
  tid : ∀ k ∈ s.tid, k < s.threads.length
  /-- There is a thread for the next join exactly after a start. -/
  joinable : (∃ k ∈ s.tid, .join (some k) ∉ tr) ↔
    (calls tr).getLast? = some (.init true true)
  joined : ∀ k, .join (some k) ∈ tr → k < s.threads.length

lemma inv_init : Inv [] init := by
  constructor <;> simp [calls, started, init]

variable {tr : List HostEvent} {s s' : Lifecycle}

/-- A step that is no call, and takes no thread out of its loop while the flag is set. -/
lemma Inv.quiet (h : Inv tr s) (hrunning : s'.running = s.running)
    (hcontext : s'.context = s.context) (htid : s'.tid = s.tid)
    (hlength : s'.threads.length = s.threads.length)
    (hloop : s.running = true → s'.destroyed = s.destroyed ∧ ∀ k, s.InLoop k → s'.InLoop k) :
    Inv tr s' := by
  have hnil : s'.threads = [] ↔ s.threads = [] := by
    rw [← List.length_eq_zero_iff, hlength, List.length_eq_zero_iff]
  constructor
  · rw [hrunning]
    exact h.running
  · intro hrun k hk
    rw [hrunning] at hrun
    exact (hloop hrun).2 k (h.inLoop hrun k (by omega))
  · intro hrun
    rw [hrunning] at hrun
    rw [(hloop hrun).1, hcontext, ne_eq, hnil]
    exact h.context hrun
  · rw [hlength]
    exact h.starts
  · rw [hnil]
    exact h.threads
  · rw [htid, hlength]
    exact h.tid
  · rw [htid]
    exact h.joinable
  · rw [hlength]
    exact h.joined

/-- A step of a service thread. -/
lemma Inv.thread {k : ℕ} {t : ServiceThread} (h : Inv tr s) (hk : s.threads[k]? = some t)
    (hstep : s.websocket_thread k t = some s') : Inv tr s' := by
  have hlt : k < s.threads.length := (List.getElem?_eq_some_iff.mp hk).1
  -- a thread that goes on in its loop
  have hset : ∀ t', (t' = .testing ∨ t' = .serving) →
      Inv tr { s with threads := s.threads.set k t' } := by
    intro t' ht'
    refine h.quiet rfl rfl rfl (by simp) fun _ => ⟨rfl, fun j hj => ?_⟩
    by_cases hjk : k = j
    · subst hjk
      simpa [InLoop, hlt] using ht'
    · simpa [InLoop, List.getElem?_set_ne hjk] using hj
  have hhalt : Inv tr { s with halted := true } :=
    h.quiet rfl rfl rfl rfl fun _ => ⟨rfl, fun _ hj => hj⟩
  cases t with
  | testing =>
    obtain rfl := Option.some.inj hstep
    by_cases hrun : s.running = true
    · rw [if_pos hrun]
      exact hset _ (Or.inr rfl)
    · exact h.quiet rfl rfl rfl (by simp) fun h => absurd h hrun
  | serving =>
    simp only [websocket_thread] at hstep
    split at hstep
    · obtain rfl := Option.some.inj hstep
      exact hset _ (Or.inl rfl)
    · split at hstep <;> obtain rfl := Option.some.inj hstep
      · exact hhalt
      · exact hset _ (Or.inl rfl)
  | leaving =>
    -- no thread leaves while the flag is set
    have hstopped : s.running ≠ true := by
      intro hrun
      rcases h.inLoop hrun k hlt with hin | hin <;>
        exact absurd (hk.symm.trans hin) (by simp)
    simp only [websocket_thread] at hstep
    split at hstep
    · obtain rfl := Option.some.inj hstep
      exact hhalt
    · split at hstep <;> obtain rfl := Option.some.inj hstep
      · exact hhalt
      · exact h.quiet rfl rfl rfl (by simp) fun hrun => absurd hrun hstopped
  | ended => exact absurd hstep (by simp [websocket_thread])

/-- A start that makes a context. -/
lemma Inv.create (h : Inv tr s) (started : Bool) :
    Inv (tr ++ (s.headcrab_init true started).2) (s.headcrab_init true started).1 := by
  cases started with
  | true =>
    have hes : (s.headcrab_init true true).2
        = [.call (.init true true) [s.threads.length] []] := rfl
    have hs : (s.headcrab_init true true).1 = { s with
        context := some s.contexts, contexts := s.contexts + 1, tid := some s.threads.length,
        threads := s.threads ++ [.testing], up := true } := rfl
    rw [hes, hs]
    constructor
    · rw [calls_append, h.running]
      simp [calls, HostCall.shutsDown, or_imp, forall_and]
    · intro hrun k hk
      by_cases hlt : k < s.threads.length
      · simpa [InLoop, List.getElem?_append_left hlt] using h.inLoop hrun k hlt
      · rw [List.length_append, List.length_singleton] at hk
        obtain rfl : k = s.threads.length := by omega
        exact Or.inl (by simp)
    · exact fun hrun => ⟨(h.context hrun).1, by simp⟩
    · intro k
      rw [started_append, List.mem_append, h.starts, List.length_append]
      simp only [started, List.flatMap_cons, List.flatMap_nil, List.append_nil,
        List.mem_singleton, List.length_singleton]
      omega
    · simp [calls]
    · simp
    · have hnew : HostEvent.join (some s.threads.length) ∉ tr := fun hmem =>
        absurd (h.joined _ hmem) (Nat.lt_irrefl _)
      simp [calls, hnew]
    · intro k hk
      have := h.joined k (by simpa using hk)
      rw [List.length_append, List.length_singleton]
      omega
  | false =>
    have hes : (s.headcrab_init true false).2 = [.call (.init true false) [] []] := rfl
    have hs : (s.headcrab_init true false).1 = { s with
        context := some s.contexts, contexts := s.contexts + 1, tid := none, up := true } := rfl
    rw [hes, hs]
    constructor
    · rw [calls_append, h.running]
      simp [calls, HostCall.shutsDown, or_imp, forall_and]
    · exact h.inLoop
    · exact fun hrun => ⟨(h.context hrun).1, by simp⟩
    · intro k
      rw [started_append, List.mem_append, h.starts]
      simp [started]
    · rw [calls_append, List.mem_append, h.threads]
      simp [calls]
    · simp
    · simp [calls]
    · exact fun k hk => h.joined k (by simpa using hk)

/-- A call that joins. -/
lemma Inv.shutDown (h : Inv tr s) {c : HostCall} (hc : c.shutsDown = true) {stops : List ℕ}
    {ctx : Option ℕ} :
    Inv (tr ++ [.call c [] stops, .join s.tid]) { s with
      context := ctx, running := false, joining := some s.tid, up := false } := by
  have hcalls : calls [.call c [] stops, .join s.tid] = [c] := rfl
  have hne : c ≠ .init true true := by
    rintro rfl
    exact absurd hc (by simp [HostCall.shutsDown])
  constructor
  · rw [calls_append, hcalls]
    simp [or_imp, forall_and, hc]
  · exact fun hrun => absurd hrun (by simp)
  · exact fun hrun => absurd hrun (by simp)
  · intro k
    rw [started_append, List.mem_append, h.starts]
    simp [started]
  · rw [calls_append, hcalls, List.mem_append, h.threads]
    simp [hne.symm]
  · exact h.tid
  · -- the thread that the next join would be of has been joined now
    rw [calls_append, hcalls, List.getLast?_append, List.getLast?_singleton]
    simp only [Option.some_or, Option.some.injEq, hne, iff_false]
    rintro ⟨k, hk, hnot⟩
    rw [Option.mem_def] at hk
    rw [hk] at hnot
    exact hnot (by simp)
  · intro k hk
    rcases List.mem_append.mp hk with hk | hk
    · exact h.joined k hk
    · exact h.tid k (by simpa [eq_comm] using hk)

/-- A call stops threads only by clearing a flag that is set. -/
lemma Inv.stops_eq_nil (h : Inv tr s) (hthreads : s.threads ≠ []) :
    s.stops = [] ↔ ∃ c ∈ calls tr, c.shutsDown = true := by
  have hcleared : (∃ c ∈ calls tr, c.shutsDown = true) ↔ s.running ≠ true := by
    rw [ne_eq, h.running]
    push Not
    simp
  rw [hcleared, stops]
  by_cases hrun : s.running = true
  · -- while the flag is set, the first thread is in its loop
    have hfirst : 0 ∈ (List.range s.threads.length).filter fun k => s.InLoop k := by
      have hpos := List.length_pos_iff.mpr hthreads
      exact List.mem_filter.mpr ⟨List.mem_range.mpr hpos,
        decide_eq_true (h.inLoop hrun 0 hpos)⟩
    rw [if_pos hrun]
    exact ⟨fun hnil => absurd hfirst (by simp [hnil]), fun hnot => absurd hrun hnot⟩
  · simp [hrun]

/-- The join of a call has its thread exactly if the call before it started one. -/
lemma Inv.orderly_join (h : Inv tr s) (e : HostEvent) (he : ∀ t, e ≠ .join t)
    (hstarts : started [e] = []) :
    Orderly (tr ++ [e]) (.join s.tid) ↔ (calls tr).getLast? = some (.init true true) := by
  have hpast : ∀ t, .join t ∈ tr ++ [e] ↔ .join t ∈ tr := by
    intro t
    simp [(he t).symm]
  simp only [Orderly, started_append, hstarts, List.append_nil, hpast, h.starts, ← h.joinable]
  constructor
  · rintro ⟨k, -, hk, hnot⟩
    exact ⟨k, hk, hnot⟩
  · rintro ⟨k, hk, hnot⟩
    exact ⟨k, h.tid k hk, hk, hnot⟩

/-- What a call that joins shows is in order exactly if the call was prepared. -/
lemma Inv.orderly_shutDown (h : Inv tr s) {c : HostCall} (hc : c.shutsDown = true) :
    Orderly tr (.call c [] s.stops) ∧ Orderly (tr ++ [.call c [] s.stops]) (.join s.tid) ↔
      c.Prepared (calls tr) := by
  rw [h.orderly_join _ (by simp) rfl, HostCall.Prepared]
  simp only [hc, forall_const]
  rw [and_comm, and_congr_right_iff]
  intro hlast
  have hthreads : s.threads ≠ [] := fun hnil =>
    h.threads.mp hnil (List.mem_of_getLast? hlast)
  cases c with
  | shutdown => simp [Orderly]
  | init created started =>
    obtain rfl : created = false := by simpa [HostCall.shutsDown] using hc
    simp [Orderly, h.stops_eq_nil hthreads]

/-- A step keeps the invariant, and shows what is in order exactly if its calls were
prepared. -/
theorem Inv.step {a : LifecycleAction} {es : List HostEvent} (h : Inv tr s)
    (hstep : s.step a = some (s', es)) :
    Inv (tr ++ es) s' ∧ (JoinsMatched (tr ++ es) ↔
      JoinsMatched tr ∧ ∀ c ∈ calls es, c.Prepared (calls tr)) ∧ (calls es).length ≤ 1 := by
  have hact : s.act a = some (s', es) := by
    rw [Lifecycle.step] at hstep
    split at hstep
    · exact absurd hstep (by simp)
    · exact hstep
  have hquiet : Inv tr s' → Inv (tr ++ []) s' ∧ (JoinsMatched (tr ++ []) ↔
      JoinsMatched tr ∧ ∀ c ∈ calls [], c.Prepared (calls tr)) ∧ (calls []).length ≤ 1 := by
    intro hinv
    simpa [calls] using hinv
  have hjoin : ∀ c : HostCall, c.shutsDown = true →
      (JoinsMatched (tr ++ [.call c [] s.stops, .join s.tid]) ↔
        JoinsMatched tr ∧ ∀ d ∈ calls [.call c [] s.stops, .join s.tid], d.Prepared (calls tr)) ∧
      (calls [.call c [] s.stops, .join s.tid]).length ≤ 1 := by
    intro c hc
    have hsplit : tr ++ [.call c [] s.stops, .join s.tid]
        = tr ++ [.call c [] s.stops] ++ [.join s.tid] := by simp
    refine ⟨?_, Nat.le_refl _⟩
    rw [hsplit, JoinsMatched, Runs.eachAfter_snoc, Runs.eachAfter_snoc, and_assoc,
      h.orderly_shutDown hc]
    simp [calls, JoinsMatched]
  cases a with
  | call c =>
    simp only [act] at hact
    split at hact
    · cases c with
      | shutdown =>
        obtain ⟨rfl, rfl⟩ := Prod.mk.inj (Option.some.inj hact)
        exact ⟨h.shutDown rfl, hjoin .shutdown rfl⟩
      | init created started =>
        cases created with
        | true =>
          obtain ⟨rfl, rfl⟩ := Prod.mk.inj (Option.some.inj hact)
          refine ⟨h.create started, ?_, by cases started <;> exact Nat.le_refl 1⟩
          cases started <;>
          · simp only [ websocket_initialize, if_true, Bool.false_eq_true, if_false]
            rw [JoinsMatched, Runs.eachAfter_snoc]
            simp [calls, Orderly, HostCall.Prepared, HostCall.shutsDown, JoinsMatched]
        | false =>
          obtain ⟨rfl, rfl⟩ := Prod.mk.inj (Option.some.inj hact)
          exact ⟨h.shutDown rfl, hjoin (.init false started) rfl⟩
    · exact absurd hact (by simp)
  | joined =>
    simp only [act] at hact
    split at hact
    · split at hact
      · obtain ⟨rfl, rfl⟩ := Prod.mk.inj (Option.some.inj hact)
        exact hquiet (h.quiet rfl rfl rfl rfl fun _ => ⟨rfl, fun _ hk => hk⟩)
      · exact absurd hact (by simp)
    · exact absurd hact (by simp)
  | thread k =>
    simp only [act, Option.map_eq_some_iff, Option.bind_eq_some_iff] at hact
    obtain ⟨s₁, ⟨t, ht, hthread⟩, heq⟩ := hact
    obtain ⟨rfl, rfl⟩ := Prod.mk.inj heq
    exact hquiet (h.thread ht hthread)

lemma inv_of_reach (hr : machine.Reach tr s) : Inv tr s :=
  hr.invariant (I := Inv) inv_init fun _ _ _ _ _ h _ hstep => (h.step hstep).1

/-- **When each join has its thread.**  In every run, exactly if each call that joins comes
directly after one that started a thread, and each start that fails after a shutdown. -/
theorem joins_matched_iff (hr : machine.Reach tr s) :
    JoinsMatched tr ↔ Runs.EachAfter HostCall.Prepared (calls tr) := by
  refine (hr.invariant (I := fun tr s => Inv tr s ∧
    (JoinsMatched tr ↔ Runs.EachAfter HostCall.Prepared (calls tr))) ⟨inv_init, ?_⟩ ?_).2
  · simp [JoinsMatched, calls]
  · rintro tr s a s' es ⟨hinv, hiff⟩ - hstep
    obtain ⟨hinv', hmatched, hlength⟩ := hinv.step hstep
    refine ⟨hinv', ?_⟩
    rw [hmatched, hiff, calls_append]
    rcases hes : calls es with _ | ⟨c, cs⟩
    · simp
    · obtain rfl : cs = [] := by
        rw [hes, List.length_cons] at hlength
        exact List.length_eq_zero_iff.mp (by omega)
      rw [Runs.eachAfter_snoc]
      simp

/-- A start, and a shutdown that waits for the thread. -/
def startAndStop : List LifecycleAction :=
  [.call (.init true true), .thread 0, .thread 0, .call .shutdown, .thread 0, .thread 0, .joined]

theorem joins_matched_startAndStop : ∃ tr s, machine.Reach tr s ∧
    calls tr = [.init true true, .shutdown] ∧ JoinsMatched tr := by
  obtain ⟨tr, s, hr, hcalls⟩ := Runs.Machine.run_of_exec_any (M := machine)
    (C := fun _ _ => True) (P := fun tr _ => calls tr = [.init true true, .shutdown])
    startAndStop (by decide +kernel)
  refine ⟨tr, s, hr, hcalls, (joins_matched_iff hr).mpr ?_⟩
  rw [hcalls]
  show Runs.EachAfter HostCall.Prepared ([] ++ [.init true true] ++ [.shutdown])
  rw [Runs.eachAfter_snoc, Runs.eachAfter_snoc]
  simp [HostCall.Prepared, HostCall.shutsDown]

/-- A start that fails joins a thread that was never started. -/
theorem failed_start_joins_nothing : ∃ tr s, machine.Reach tr s ∧ ¬ JoinsMatched tr := by
  refine Runs.Machine.run_of_exec [.call (.init false false)] ⟨_, rfl, fun h => ?_⟩
  obtain ⟨k, -, hk, -⟩ := h [.call (.init false false) [] []] (.join none) [] rfl
  exact absurd hk (by simp)

/-- **When a successful start yields a server that runs.**  In every state that is reached,
exactly if no shutdown has begun since the process started, not even that of a start that
failed, and a thread was started. -/
theorem serves_while_up_iff (hr : machine.Reach tr s) :
    ServesWhileUp s ↔ (s.up = true →
      (∀ c ∈ calls tr, c.shutsDown = false) ∧ .init true true ∈ calls tr) := by
  have h := inv_of_reach hr
  have hmem : .init true true ∈ calls tr ↔ s.threads ≠ [] := by
    rw [ne_eq, h.threads, not_not]
  rw [ServesWhileUp, Serves, ← h.running, hmem]
  refine imp_congr_right fun _ => ⟨?_, ?_⟩
  · rintro ⟨hrun, ⟨k, hk⟩, -⟩
    refine ⟨hrun, fun hnil => ?_⟩
    rw [InLoop, hnil] at hk
    exact absurd hk (by simp)
  · rintro ⟨hrun, hthreads⟩
    obtain ⟨hdestroyed, hcontext⟩ := h.context hrun
    obtain ⟨c, hc⟩ := Option.ne_none_iff_exists'.mp (hcontext hthreads)
    exact ⟨hrun, ⟨0, h.inLoop hrun 0 (List.length_pos_iff.mpr hthreads)⟩, c, hc,
      by simp [hdestroyed]⟩

theorem serves_while_up_firstStart : ∃ tr s, machine.Reach tr s ∧ s.up = true ∧
    ServesWhileUp s := by
  obtain ⟨tr, s, hr, hup, hcalls⟩ := Runs.Machine.run_of_exec_any (M := machine)
    (C := fun _ _ => True) (P := fun tr s => s.up = true ∧ calls tr = [.init true true])
    [.call (.init true true), .thread 0, .thread 0] (by decide +kernel)
  refine ⟨tr, s, hr, hup, (serves_while_up_iff hr).mpr fun _ => ?_⟩
  rw [hcalls]
  simp [HostCall.shutsDown]

/-- After a shutdown, a start succeeds, and its thread finds the flag cleared. -/
theorem restart_does_not_serve : ∃ tr s, machine.Reach tr s ∧ ¬ ServesWhileUp s := by
  obtain ⟨tr, s, hr, hup, hrun⟩ := Runs.Machine.run_of_exec_any (M := machine)
    (C := fun _ _ => True) (P := fun _ s => s.up = true ∧ s.running = false)
    (startAndStop ++ [.call (.init true true)]) (by decide +kernel)
  exact ⟨tr, s, hr, fun h => absurd (h hup).1 (by simp [hrun])⟩

end Lifecycle

end Headcrab
