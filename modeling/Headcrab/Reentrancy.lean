/-
# Hooks that bind during a dispatch

A hook may call `headcrab_bind_object` while `dispatch_table_execute` walks through the
handlers of its target, and what it binds is linked behind the handler that the walk is at.
So the dispatch does not run a snapshot of the handlers that were bound when it was entered
(`not_runs_snapshot`): it runs these and then those that were bound meanwhile, each once and
in the order of the bindings, and it ends exactly if its hooks stop binding to its target
(`dispatch_runs_bound_meanwhile`).

What the hooks bind is read off the trace of their calls: `BindingHooks.replay`.
-/
import Headcrab.Bindings

namespace Headcrab

variable {A ω : Type}

/-! ## What the hooks of a trace bind -/

namespace BindingHooks

variable (hooks : BindingHooks A ω)

/-- What a call binds, and the state of the host program after it. -/
def bindsOf : HookEvent A → ω → List BindCall × ω
  | .pre f a, e => (hooks.pre f a e).2
  | .op f o a, e => hooks.op f o a e
  | .post f a, e => (hooks.post f a e).2
  | .returned _, e => ([], e)

/-- What the calls of a trace bind, and the state of the host program after them. -/
def replay : List (HookEvent A) → ω → List BindCall × ω
  | [], e => ([], e)
  | ev :: tr, e =>
    let (cs, e) := hooks.bindsOf ev e
    let (cs', e) := replay tr e
    (cs ++ cs', e)

@[simp] lemma replay_nil (e : ω) : hooks.replay [] e = ([], e) := rfl

lemma replay_cons (ev : HookEvent A) (tr : List (HookEvent A)) (e : ω) :
    hooks.replay (ev :: tr) e
      = ((hooks.bindsOf ev e).1 ++ (hooks.replay tr (hooks.bindsOf ev e).2).1,
        (hooks.replay tr (hooks.bindsOf ev e).2).2) := rfl

lemma replay_append (tr tr' : List (HookEvent A)) (e : ω) :
    hooks.replay (tr ++ tr') e
      = ((hooks.replay tr e).1 ++ (hooks.replay tr' (hooks.replay tr e).2).1,
        (hooks.replay tr' (hooks.replay tr e).2).2) := by
  induction tr generalizing e with
  | nil => rfl
  | cons ev tr ih => rw [List.cons_append, replay_cons, ih, replay_cons, List.append_assoc]

@[simp] lemma replay_singleton (ev : HookEvent A) (e : ω) :
    hooks.replay [ev] e = hooks.bindsOf ev e := by
  rw [replay_cons, replay_nil, List.append_nil]

end BindingHooks

/-! ## The memory after a dispatch -/

/-- If the computation ends, its memory is the old one with what its trace binds. -/
def Replays (hooks : BindingHooks A ω) (s : Heap × ω)
    (x : Traced (HookEvent A) Fault (Heap × ω)) : Prop :=
  ∀ s', x.result = .ok s' →
    s.1.bindAll (hooks.replay x.trace s.2).1 = .ok s'.1 ∧ (hooks.replay x.trace s.2).2 = s'.2

lemma Heap.bindAll_append {h h' : Heap} {cs : List BindCall} (hcs : h.bindAll cs = .ok h')
    (cs' : List BindCall) : h.bindAll (cs ++ cs') = h'.bindAll cs' := by
  rw [Heap.bindAll] at hcs ⊢
  rw [List.foldlM_append, hcs]
  rfl

namespace Replays

variable {hooks : BindingHooks A ω} {s : Heap × ω} {x : Traced (HookEvent A) Fault (Heap × ω)}

lemma pure (s : Heap × ω) : Replays hooks s (Pure.pure s) := by
  rintro s' ⟨⟩
  exact ⟨rfl, rfl⟩

lemma error (s : Heap × ω) (f : Fault) : Replays hooks s (.ofExcept (.error f)) := by
  rintro s' ⟨⟩

/-- One computation after the other. -/
lemma bind {f : Heap × ω → Traced (HookEvent A) Fault (Heap × ω)} (hx : Replays hooks s x)
    (hf : ∀ s', Replays hooks s' (f s')) : Replays hooks s (x >>= f) := by
  intro s'' hs''
  rcases hres : x.result with y | s'
  · rw [Traced.bind_error hres] at hs''
    exact absurd hs'' (by simp)
  · rw [Traced.bind_ok hres] at hs'' ⊢
    obtain ⟨hheap, hhost⟩ := hx s' hres
    obtain ⟨hheap', hhost'⟩ := hf s' s'' hs''
    show s.1.bindAll (hooks.replay (x.trace ++ (f s').trace) s.2).1 = _ ∧
      (hooks.replay (x.trace ++ (f s').trace) s.2).2 = _
    rw [hooks.replay_append, hhost]
    exact ⟨(Heap.bindAll_append hheap _).trans hheap', hhost'⟩

/-- A value that is read first. -/
lemma load {α : Type} {y : Except Fault α} {f : α → Traced (HookEvent A) Fault (Heap × ω)}
    (hf : ∀ a, Replays hooks s (f a)) :
    Replays hooks s ((liftM y : Traced (HookEvent A) Fault α) >>= f) := by
  rcases y with e | a
  · exact error s e
  · rw [Traced.liftM_eq, Traced.ofExcept_ok_bind]
    exact hf a

end Replays

section

variable (hooks : BindingHooks A ω)

/-- A pre-op or post-op function, given that what it binds is what its event stands for. -/
lemma callIfSet_replays {event : Fn → VoidPtr → HookEvent A}
    {run : Fn → VoidPtr → Heap × ω → Except Fault (HEADCRAB_ERROR × (Heap × ω))} {s : Heap × ω}
    (hrun : ∀ f a x, run f a s = .ok x → s.1.bindAll (hooks.bindsOf (event f a) s.2).1 = .ok x.2.1 ∧
      (hooks.bindsOf (event f a) s.2).2 = x.2.2) (f : Option Fn) (args : VoidPtr) :
    Replays hooks s (callIfSet event run f args s) := by
  rcases f with _ | f
  · exact Replays.pure s
  · rintro s' hs'
    rcases hx : run f args s with y | ⟨r, s''⟩
    · rw [callIfSet, hx] at hs'
      exact absurd hs' (by simp [Traced.ofExcept, Traced.bind_error])
    · have hcall : callIfSet event run (some f) args s
          = ⟨[event f args, .returned r], .ok s''⟩ := by
        simp only [callIfSet, hx]
        rfl
      rw [hcall] at hs' ⊢
      obtain rfl := Except.ok.inj hs'
      obtain ⟨hheap, hhost⟩ := hrun f args _ hx
      rw [hooks.replay_cons, hooks.replay_singleton]
      show s.1.bindAll (_ ++ []) = _ ∧ _
      rw [List.append_nil]
      exact ⟨hheap, hhost⟩

/-- What a function that binds leaves. -/
lemma bindAll_of_bind_ok {α : Type} {s : Heap × ω} {cs : List BindCall} {f : Heap → α} {x : α}
    (h : (s.1.bindAll cs >>= fun h' => Except.ok (f h')) = .ok x) :
    ∃ h', s.1.bindAll cs = .ok h' ∧ x = f h' := by
  rcases hall : s.1.bindAll cs with e | h'
  · rw [hall] at h
    exact absurd h (by simp [Bind.bind, Except.bind])
  · rw [hall] at h
    exact ⟨h', rfl, (Except.ok.inj h).symm⟩

lemma callPre_replays (pre : Option Fn) (preArgs : VoidPtr) (s : Heap × ω) :
    Replays hooks s (hooks.onHeap.callPre pre preArgs s) := by
  refine callIfSet_replays hooks (fun f a x hx => ?_) pre preArgs
  obtain ⟨h', hall, rfl⟩ := bindAll_of_bind_ok hx
  exact ⟨hall, rfl⟩

lemma callPost_replays (post : Option Fn) (postArgs : VoidPtr) (s : Heap × ω) :
    Replays hooks s (hooks.onHeap.callPost post postArgs s) := by
  refine callIfSet_replays hooks (fun f a x hx => ?_) post postArgs
  obtain ⟨h', hall, rfl⟩ := bindAll_of_bind_ok hx
  exact ⟨hall, rfl⟩

lemma callOp_replays (op : Option Fn) (object : VoidPtr) (args : A) (s : Heap × ω) :
    Replays hooks s (hooks.onHeap.callOp op object args s) := by
  rcases op with _ | f
  · exact Replays.error s _
  · intro s' hs'
    obtain ⟨h', hall, rfl⟩ := bindAll_of_bind_ok (hs' : hooks.onHeap.op f object args s = .ok s')
    refine ⟨?_, ?_⟩
    · show s.1.bindAll (hooks.replay ([.op f object args] ++ []) s.2).1 = _
      rw [List.append_nil, hooks.replay_singleton]
      exact hall
    · show (hooks.replay ([.op f object args] ++ []) s.2).2 = _
      rw [List.append_nil, hooks.replay_singleton]
      rfl

lemma runHandler_replays (node handler : Option Ptr) (args : A) (s : Heap × ω) :
    Replays hooks s (runHandler hooks.onHeap node handler args s) := by
  refine Replays.load fun c => (callPre_replays hooks _ _ s).bind fun s₁ => ?_
  refine Replays.load fun c₁ => Replays.load fun n => ?_
  refine (callOp_replays hooks _ _ args s₁).bind fun s₂ => ?_
  exact Replays.load fun c₂ => callPost_replays hooks _ _ s₂

lemma executeFrom_replays (node : Option Ptr) (v : Option String) (args : A) (fuel : ℕ) :
    ∀ (p : Option Ptr) (s : Heap × ω),
      Replays hooks s (executeFrom hooks.onHeap node v args fuel p s) := by
  induction fuel with
  | zero => exact fun _ s => Replays.error s _
  | succ fuel ih =>
    intro p s
    rcases p with _ | p
    · exact Replays.pure s
    · rw [executeFrom]
      refine Replays.load fun c => Replays.load fun eq => ?_
      split
      · refine (runHandler_replays hooks node (some p) args s).bind fun s₁ => ?_
        exact Replays.load fun c₁ => ih _ s₁
      · exact ih _ s

/-- **What a dispatch leaves in memory** is what was there with what its hooks bind. -/
theorem dispatch_table_execute_replays (fuel : ℕ) (t v : Option String) (args : A)
    (s : Heap × ω) : Replays hooks s (dispatch_table_execute hooks.onHeap fuel t v args s) := by
  refine Replays.load fun node => ?_
  split
  · exact Replays.pure s
  · exact Replays.load fun n => executeFrom_replays hooks _ _ _ _ _ s

end

/-! ## The walk through the handlers -/

/-- The call of a pre-op or post-op function, if it is set, and its return. -/
def shown (event : Fn → VoidPtr → HookEvent A) (f : Option Fn) (args : VoidPtr)
    (r : HEADCRAB_ERROR) : List (HookEvent A) :=
  match f with
  | none => []
  | some f => [event f args, .returned r]

/-- What a handler shows: its pre-op function, its mutator and its post-op function. -/
def handlerTrace (object : VoidPtr) (args : A) (c : Handler) (r r' : HEADCRAB_ERROR) :
    List (HookEvent A) :=
  shown .pre c.binding.preOp c.binding.preOpArgs r
    ++ (c.binding.op.map fun f => .op f object args).toList
    ++ shown .post c.binding.postOp c.binding.postOpArgs r'

/-- What a handler with a mutator shows: whatever its pre-op function returns, the mutator is
called. -/
def Ran (object : VoidPtr) (args : A) (c : Handler) (tr : List (HookEvent A)) : Prop :=
  c.binding.op ≠ none ∧ ∃ r r', tr = handlerTrace object args c r r'

/-- What a walk through handlers shows, and how it ends. -/
inductive Walked (object : VoidPtr) (args : A) :
    List Handler → List (HookEvent A) → Option Fault → Prop
  | all : Walked object args [] [] none
  /-- The fuel is used up. -/
  | out (cs : List Handler) : Walked object args cs [] (some .diverges)
  /-- The mutator of the next handler is `NULL`. -/
  | null {c : Handler} (cs : List Handler) (r : HEADCRAB_ERROR) : c.binding.op = none →
      Walked object args (c :: cs) (shown .pre c.binding.preOp c.binding.preOpArgs r)
        (some .nullCall)
  | next {c : Handler} {cs : List Handler} {tr tr' : List (HookEvent A)} {x : Option Fault} :
      Ran object args c tr → Walked object args cs tr' x →
      Walked object args (c :: cs) (tr ++ tr') x

section

variable (hooks : BindingHooks A ω)

/-- A pre-op or post-op function, given that it binds what its event stands for. -/
lemma callIfSet_shown {event : Fn → VoidPtr → HookEvent A}
    {run : Fn → VoidPtr → Table × ω → Except Fault (HEADCRAB_ERROR × (Table × ω))} {T : Table}
    {e : ω} (hrun : ∀ f a, ∃ r, run f a (T, e)
      = .ok (r, (T.bindAll (hooks.bindsOf (event f a) e).1, (hooks.bindsOf (event f a) e).2)))
    (f : Option Fn) (args : VoidPtr) :
    ∃ r, callIfSet event run f args (T, e)
      = ⟨shown event f args r, .ok (T.bindAll (hooks.replay (shown event f args r) e).1,
          (hooks.replay (shown event f args r) e).2)⟩ := by
  rcases f with _ | f
  · exact ⟨.HC_SUCCESS, rfl⟩
  · obtain ⟨r, hr⟩ := hrun f args
    refine ⟨r, ?_⟩
    rw [shown, hooks.replay_cons, hooks.replay_singleton]
    simp only [callIfSet, hr, BindingHooks.bindsOf, List.append_nil]
    rfl

lemma callPre_shown (f : Option Fn) (args : VoidPtr) (T : Table) (e : ω) :
    ∃ r, hooks.onTable.callPre f args (T, e)
      = ⟨shown .pre f args r, .ok (T.bindAll (hooks.replay (shown .pre f args r) e).1,
          (hooks.replay (shown .pre f args r) e).2)⟩ :=
  callIfSet_shown hooks (fun _ _ => ⟨_, rfl⟩) f args

lemma callPost_shown (f : Option Fn) (args : VoidPtr) (T : Table) (e : ω) :
    ∃ r, hooks.onTable.callPost f args (T, e)
      = ⟨shown .post f args r, .ok (T.bindAll (hooks.replay (shown .post f args r) e).1,
          (hooks.replay (shown .post f args r) e).2)⟩ :=
  callIfSet_shown hooks (fun _ _ => ⟨_, rfl⟩) f args

/-- A handler runs, or faults behind its pre-op function because it has no mutator. -/
lemma runHandler_ran {T : Table} {t : String} {o : VoidPtr} (ho : Registry.ownerOf T t = some o)
    (c : Handler) (args : A) (e : ω) :
    (c.binding.op = none ∧ ∃ r, Table.runHandler hooks.onTable t c.binding args (T, e)
      = ⟨shown .pre c.binding.preOp c.binding.preOpArgs r, .error .nullCall⟩) ∨
    ∃ tr, Ran o args c tr ∧ Table.runHandler hooks.onTable t c.binding args (T, e)
      = ⟨tr, .ok (T.bindAll (hooks.replay tr e).1, (hooks.replay tr e).2)⟩ := by
  obtain ⟨r, hpre⟩ := callPre_shown hooks c.binding.preOp c.binding.preOpArgs T e
  rw [Table.runHandler, hpre, Traced.bind_ok rfl]
  rcases hop : c.binding.op with _ | f
  · refine Or.inl ⟨rfl, r, ?_⟩
    show Traced.mk (_ ++ []) _ = _
    rw [List.append_nil]
    rfl
  · set cs₁ := (hooks.replay (shown .pre c.binding.preOp c.binding.preOpArgs r) e).1
    set e₁ := (hooks.replay (shown .pre c.binding.preOp c.binding.preOpArgs r) e).2
    have hcall : hooks.onTable.callOp (some f) ((T.bindAll cs₁).objectOf t) args
        (T.bindAll cs₁, e₁) = ⟨[.op f o args],
          .ok ((T.bindAll cs₁).bindAll (hooks.op f o args e₁).1, (hooks.op f o args e₁).2)⟩ := by
      rw [objectOf_bindAll ho]
      rfl
    obtain ⟨r', hpost⟩ := callPost_shown hooks c.binding.postOp c.binding.postOpArgs
      ((T.bindAll cs₁).bindAll (hooks.op f o args e₁).1) (hooks.op f o args e₁).2
    refine Or.inr ⟨_, ⟨by simp [hop], r, r', rfl⟩, ?_⟩
    have htrace : handlerTrace o args c r r'
        = shown .pre c.binding.preOp c.binding.preOpArgs r ++ .op f o args
          :: shown .post c.binding.postOp c.binding.postOpArgs r' := by
      rw [handlerTrace, hop, List.append_assoc]
      rfl
    rw [htrace, hcall, Traced.bind_ok rfl, hpost, hooks.replay_append, hooks.replay_cons,
      Table.bindAll_append, Table.bindAll_append]
    rfl

/-- The walk from the handler with a given index on goes through the handlers that the name
has when it ends, those that were bound meanwhile among them; it uses up its fuel only if
there are so many. -/
lemma executeFrom_walked (t v : String) (args : A) (o : VoidPtr) (fuel : ℕ) :
    ∀ (T : Table) (i : ℕ) (e : ω), Registry.ownerOf T t = some o →
      i ≤ (Registry.itemsOf T t).length →
      ∀ x, Table.executeFrom hooks.onTable t v args fuel i (T, e) = x →
      ∀ T', T.bindAll (hooks.replay x.trace e).1 = T' →
      Walked o args (((Registry.itemsOf T' t).drop i).filter fun c => c.verb = v) x.trace
          x.failure ∧
        (x.failure = some .diverges → i + fuel ≤ (Registry.itemsOf T' t).length) := by
  induction fuel with
  | zero =>
    rintro T i e ho hi x rfl T' rfl
    exact ⟨.out _, fun _ => hi⟩
  | succ fuel ih =>
    rintro T i e ho hi x hx T' hT'
    rw [Table.executeFrom] at hx
    rcases hc : (Registry.itemsOf T t)[i]? with _ | c
    · rw [hc] at hx
      subst hx
      obtain rfl : T = T' := hT'
      rw [List.drop_eq_nil_of_le (List.getElem?_eq_none_iff.mp hc)]
      exact ⟨.all, fun h => absurd h (by simp)⟩
    · obtain ⟨hlt, rfl⟩ := List.getElem?_eq_some_iff.mp hc
      -- the handler stays where it is
      have hgrow : ∀ cs, ((Registry.itemsOf (T.bindAll cs) t).drop i)
          = (Registry.itemsOf T t)[i] :: (Registry.itemsOf (T.bindAll cs) t).drop (i + 1) := by
        intro cs
        have hlt' : i < (Registry.itemsOf (T.bindAll cs) t).length := by
          rw [Table.itemsOf_bindAll, List.length_append]
          omega
        rw [List.drop_eq_getElem_cons hlt']
        congr 1
        simp only [Table.itemsOf_bindAll, List.getElem_append_left hlt]
      rw [hc] at hx
      simp only at hx
      by_cases hv : (Registry.itemsOf T t)[i].verb = v
      · rw [if_pos hv] at hx
        rcases runHandler_ran hooks ho (Registry.itemsOf T t)[i] args e with
          ⟨hop, r, hrun⟩ | ⟨tr, hran, hrun⟩
        · rw [hrun, Traced.bind_error rfl] at hx
          subst hx hT'
          refine ⟨?_, fun h => absurd h (by simp [Traced.failure])⟩
          rw [hgrow, List.filter_cons, if_pos (by simpa using hv)]
          exact .null _ r hop
        · rw [hrun, Traced.bind_ok rfl] at hx
          set T₁ := T.bindAll (hooks.replay tr e).1
          set y := Table.executeFrom hooks.onTable t v args fuel (i + 1)
            (T₁, (hooks.replay tr e).2) with hy
          have htrace : x.trace = tr ++ y.trace := by rw [← hx]
          have hfailure : x.failure = y.failure := by rw [← hx]; rfl
          have hmore : T₁.bindAll (hooks.replay y.trace (hooks.replay tr e).2).1 = T' := by
            rw [← hT', htrace, hooks.replay_append, Table.bindAll_append]
          have hi₁ : i + 1 ≤ (Registry.itemsOf T₁ t).length := by
            rw [Table.itemsOf_bindAll, List.length_append]
            omega
          obtain ⟨hwalked, hlength⟩ := ih T₁ (i + 1) _ (Table.ownerOf_bindAll ho _) hi₁ y hy.symm
            T' hmore
          rw [htrace, hfailure]
          refine ⟨?_, fun h => ?_⟩
          · rw [← hT', hgrow, List.filter_cons, if_pos (by simpa using hv), hT']
            exact .next hran hwalked
          · have := hlength h
            omega
      · rw [if_neg hv] at hx
        obtain ⟨hwalked, hlength⟩ := ih T (i + 1) e ho hlt x hx T' hT'
        refine ⟨?_, fun h => ?_⟩
        · rw [← hT', hgrow, List.filter_cons, if_neg (by simpa using hv), hT']
          exact hwalked
        · have := hlength h
          omega

lemma execute_walked (T : Table) (t v : String) (args : A) (e : ω) (fuel : ℕ) :
    ∀ x, Table.execute hooks.onTable fuel t v args (T, e) = x →
      ∀ T', T.bindAll (hooks.replay x.trace e).1 = T' →
      Walked (T.objectOf t) args ((Registry.itemsOf T' t).filter fun c => c.verb = v) x.trace
          x.failure ∧
        (x.failure = some .diverges → fuel ≤ (Registry.itemsOf T' t).length) := by
  rintro x hx T' hT'
  rw [Table.execute] at hx
  rcases hentry : Registry.entry T t with _ | n
  · rw [hentry] at hx
    subst hx
    obtain rfl : T = T' := hT'
    have hitems : Registry.itemsOf T t = [] := by
      rw [Registry.itemsOf, hentry]
      rfl
    rw [hitems]
    exact ⟨.all, fun h => absurd h (by simp)⟩
  · rw [hentry] at hx
    have ho : Registry.ownerOf T t = some n.owner := by
      rw [Registry.ownerOf, hentry]
      rfl
    have hobject : T.objectOf t = n.owner := by
      rw [Table.objectOf, ho]
      rfl
    rw [hobject]
    simpa using executeFrom_walked hooks t v args n.owner fuel T 0 e ho (Nat.zero_le _) x hx T' hT'

end

/-- The handler that a binding makes for a verb. -/
def handlerOf (v : String) (c : BindCall) : Handler := ⟨v, c.binding⟩

section Booted

variable (hooks : BindingHooks A ω) {cs : List BindCall} {h : Heap}
  (hcs : Heap.booted.bindAll cs = .ok h) (t v : String) (args : A) (e : ω)

include hcs

/-- After a history of bindings, a dispatch walks through the handlers of its target and verb,
those that are bound meanwhile among them. -/
theorem dispatch_table_execute_walked (fuel : ℕ) :
    ∀ x, dispatch_table_execute hooks.onHeap fuel (some t) (some v) args (h, e) = x →
      ∀ cs', cs ++ (hooks.replay x.trace e).1 = cs' →
      Walked (boundObject cs t) args ((boundTo cs' t v).map (handlerOf v)) x.trace x.failure ∧
        (x.failure = some .diverges → fuel ≤ (cs'.filterMap (BindCall.handlerFor t)).length) := by
  rintro x rfl cs' rfl
  obtain ⟨h', hall, hrep⟩ := bindAll_booted cs
  obtain rfl : h = h' := Except.ok.inj (hcs.symm.trans hall)
  have hsim := dispatch_table_execute_sim hooks hrep fuel t v args e
  obtain ⟨hwalked, hlength⟩ := execute_walked hooks (Table.init.bindAll cs) t v args e fuel _ rfl _
    (Table.bindAll_append _ _ _).symm
  rw [← hsim.trace_eq, ← hsim.failure_eq] at hwalked hlength
  rw [objectOf_bindAll_init, handlers_bindAll_init] at hwalked
  refine ⟨hwalked, fun hx => ?_⟩
  have hle := hlength hx
  rw [Table.itemsOf_bindAll, Table.itemsOf_init, List.nil_append] at hle
  exact hle

/-- What a dispatch leaves in memory, after a history of bindings. -/
lemma bindAll_of_execute {fuel : ℕ} {s' : Heap × ω}
    (hok : (dispatch_table_execute hooks.onHeap fuel (some t) (some v) args (h, e)).result
      = .ok s') :
    Heap.booted.bindAll (cs ++ (hooks.replay
      (dispatch_table_execute hooks.onHeap fuel (some t) (some v) args (h, e)).trace e).1)
        = .ok s'.1 :=
  (Heap.bindAll_append hcs _).trans (dispatch_table_execute_replays hooks _ _ _ _ _ _ hok).1

end Booted

/-! ## A dispatch with more fuel -/

section Fuel

variable (hooks : Hooks A (Heap × ω))

lemma executeFrom_cut (node : Option Ptr) (v : Option String) (args : A) (fuel : ℕ) :
    ∀ (fuel' : ℕ) (p : Option Ptr) (s : Heap × ω), fuel ≤ fuel' →
      Traced.CutBy .diverges (executeFrom hooks node v args fuel p s)
        (executeFrom hooks node v args fuel' p s) := by
  induction fuel with
  | zero => exact fun _ _ _ _ => Or.inr ⟨rfl, List.nil_prefix⟩
  | succ fuel ih =>
    intro fuel' p s hle
    obtain ⟨fuel', rfl⟩ : ∃ k, fuel' = k + 1 := ⟨fuel' - 1, by omega⟩
    rcases p with _ | p
    · exact .refl _ _
    · rw [executeFrom, executeFrom]
      refine .bind _ fun c => .bind _ fun eq => ?_
      split
      · exact .bind _ fun s₁ => .bind _ fun c₁ => ih _ _ _ (by omega)
      · exact ih _ _ _ (by omega)

/-- More fuel makes a dispatch go on, or changes nothing. -/
lemma dispatch_table_execute_cut {fuel fuel' : ℕ} (hle : fuel ≤ fuel') (t v : Option String)
    (args : A) (s : Heap × ω) :
    Traced.CutBy .diverges (dispatch_table_execute hooks fuel t v args s)
      (dispatch_table_execute hooks fuel' t v args s) := by
  refine .bind _ fun node => ?_
  split
  · exact .refl _ _
  · exact .bind _ fun n => executeFrom_cut hooks _ _ _ _ _ _ _ hle

/-- A dispatch that ends does so in one way, whatever the fuel. -/
lemma dispatch_table_execute_eq {fuel fuel' : ℕ} {t v : Option String} {args : A} {s : Heap × ω}
    (h : (dispatch_table_execute hooks fuel t v args s).failure ≠ some .diverges)
    (h' : (dispatch_table_execute hooks fuel' t v args s).failure ≠ some .diverges) :
    dispatch_table_execute hooks fuel t v args s
      = dispatch_table_execute hooks fuel' t v args s := by
  rcases Nat.le_total fuel fuel' with hle | hle
  · exact (dispatch_table_execute_cut hooks hle t v args s).eq h
  · exact ((dispatch_table_execute_cut hooks hle t v args s).eq h').symm

end Fuel

/-! ## What a dispatch runs if its hooks bind -/

/-- A dispatch ends and runs a snapshot: after any history of bindings with mutators, and
whatever the hooks bind, it runs the handlers that were bound when it was entered. -/
def RunsSnapshot : Prop :=
  ∀ (A ω : Type) (hooks : BindingHooks A ω) (cs : List BindCall) (h : Heap) (t v : String)
    (args : A) (e : ω), Heap.booted.bindAll cs = .ok h → (∀ c ∈ cs, c.binding.op ≠ none) →
    ∃ fuel s', (dispatch_table_execute hooks.onHeap fuel (some t) (some v) args (h, e)).result
        = .ok s' ∧
      hookCalls (dispatch_table_execute hooks.onHeap fuel (some t) (some v) args (h, e)).trace
        = (boundTo cs t v).flatMap fun c => c.binding.block (boundObject cs t) args

/-- The calls that a walk makes, unless its fuel is used up. -/
lemma Walked.hookCalls_eq {o : VoidPtr} {args : A} {cs : List Handler} {tr : List (HookEvent A)}
    {x : Option Fault} (h : Walked o args cs tr x) (hx : x ≠ some .diverges) :
    hookCalls tr = callsOf o args cs ∧ (x = none ↔ ∀ c ∈ cs, c.binding.op ≠ none) := by
  have hshown : ∀ (event : Fn → VoidPtr → HookEvent A), (∀ f a r, hookCalls [event f a, .returned r]
      = [event f a]) → ∀ f a r, hookCalls (shown event f a r)
        = (f.map fun f => event f a).toList := by
    rintro event hevent (_ | f) a r
    · rfl
    · exact hevent f a r
  have hpre := hshown .pre fun _ _ _ => rfl
  have hpost := hshown .post fun _ _ _ => rfl
  induction h with
  | all => exact ⟨rfl, by simp⟩
  | out cs => exact absurd rfl hx
  | null cs r hop =>
    refine ⟨?_, by simp [hop]⟩
    rw [callsOf, hop, hpre]
    rfl
  | @next c cs tr tr' x hran hwalked ih =>
    obtain ⟨hop, r, r', rfl⟩ := hran
    obtain ⟨f, hf⟩ := Option.ne_none_iff_exists'.mp hop
    obtain ⟨hcalls, hnone⟩ := ih hx
    refine ⟨?_, by simpa [hop] using hnone⟩
    rw [hookCalls_append, handlerTrace, hookCalls_append, hookCalls_append, hpre, hpost, hcalls,
      callsOf, hf, Option.isSome_some, if_pos rfl, Binding.block, hf]
    rfl

section

variable (hooks : BindingHooks A ω) (cs : List BindCall) (t v : String) (args : A) (e : ω)

/-- What the hooks bind during a dispatch. -/
def boundDuring (h : Heap) (fuel : ℕ) : List BindCall :=
  (hooks.replay
    (dispatch_table_execute hooks.onHeap fuel (some t) (some v) args (h, e)).trace e).1

/-- More fuel makes the hooks bind more, or the same. -/
lemma boundDuring_mono (h : Heap) {fuel fuel' : ℕ} (hle : fuel ≤ fuel') :
    boundDuring hooks t v args e h fuel <+: boundDuring hooks t v args e h fuel' := by
  obtain ⟨tr, htr⟩ :=
    (dispatch_table_execute_cut hooks.onHeap hle (some t) (some v) args (h, e)).trace
  rw [boundDuring, boundDuring, ← htr, hooks.replay_append]
  exact List.prefix_append _ _

/-- **A dispatch runs what is bound when it gets there.**  After any history of bindings, and
whatever the hooks bind, a dispatch that comes to an end has run the handlers of its target
and verb that were bound when it was entered, and behind them those that its hooks have bound
to that target and verb meanwhile, each once and in the order of the bindings, up to one
without a mutator.  It comes to an end exactly if its hooks bind only so many handlers to its
target. -/
theorem dispatch_runs_bound_meanwhile :
    ∃ h, Heap.booted.bindAll cs = .ok h ∧
      (∀ fuel, (dispatch_table_execute hooks.onHeap fuel (some t) (some v) args (h, e)).failure
          ≠ some .diverges →
        hookCalls (dispatch_table_execute hooks.onHeap fuel (some t) (some v) args (h, e)).trace
          = callsOf (boundObject cs t) args ((boundTo cs t v
            ++ boundTo (boundDuring hooks t v args e h fuel) t v).map (handlerOf v)) ∧
        ((dispatch_table_execute hooks.onHeap fuel (some t) (some v) args (h, e)).failure = none ↔
          ∀ c ∈ boundTo cs t v ++ boundTo (boundDuring hooks t v args e h fuel) t v,
            c.binding.op ≠ none) ∧
        ∀ s', (dispatch_table_execute hooks.onHeap fuel (some t) (some v) args (h, e)).result
            = .ok s' →
          Heap.booted.bindAll (cs ++ boundDuring hooks t v args e h fuel) = .ok s'.1) ∧
      ((∃ fuel, (dispatch_table_execute hooks.onHeap fuel (some t) (some v) args (h, e)).failure
          ≠ some .diverges) ↔
        ∃ N, ∀ fuel, ((boundDuring hooks t v args e h fuel).filterMap
          (BindCall.handlerFor t)).length ≤ N) := by
  obtain ⟨h, hall, -⟩ := bindAll_booted cs
  have hwalk : ∀ fuel, _ := fun fuel =>
    dispatch_table_execute_walked hooks hall t v args e fuel _ rfl _ rfl
  refine ⟨h, hall, fun fuel hstops => ?_, ?_, ?_⟩
  · obtain ⟨hcalls, hnone⟩ := (hwalk fuel).1.hookCalls_eq hstops
    have hbound : ∀ cs', boundTo (cs ++ cs') t v = boundTo cs t v ++ boundTo cs' t v :=
      fun cs' => List.filter_append ..
    rw [hbound] at hcalls hnone
    exact ⟨hcalls, hnone.trans List.forall_mem_map,
      fun s' => bindAll_of_execute hooks hall t v args e⟩
  · -- the hooks bind no more than in the run that ends
    rintro ⟨fuel, hstops⟩
    refine ⟨((boundDuring hooks t v args e h fuel).filterMap (BindCall.handlerFor t)).length,
      fun fuel' => ?_⟩
    rcases Nat.le_total fuel fuel' with hle | hle
    · have heq := (dispatch_table_execute_cut hooks.onHeap hle (some t) (some v) args (h, e)).eq
        hstops
      exact Nat.le_of_eq (by rw [boundDuring, boundDuring, heq])
    · exact ((boundDuring_mono hooks t v args e h hle).filterMap _).length_le
  · -- a run that never ends goes through more handlers than there are
    rintro ⟨N, hN⟩
    by_contra hnever
    push Not at hnever
    set fuel := (cs.filterMap (BindCall.handlerFor t)).length + N + 1 with hfuel
    have hlength := (hwalk fuel).2 (hnever fuel)
    have hbound := hN fuel
    rw [boundDuring] at hbound
    rw [List.filterMap_append, List.length_append] at hlength
    omega

end

/-- Hooks of which mutator 11 binds mutator 12 to the verb `move` of `ball`. -/
def BindingHooks.bindNext : BindingHooks Unit Unit where
  pre _ _ e := (.HC_SUCCESS, [], e)
  op f _ _ e :=
    (if f = 11 then [⟨none, "ball", some "move", ⟨none, none, some 12, none, none⟩⟩] else [], e)
  post _ _ e := (.HC_SUCCESS, [], e)

/-- Mutator 12 runs in the dispatch in which it is bound. -/
theorem not_runs_snapshot : ¬ RunsSnapshot := by
  intro hsnapshot
  obtain ⟨fuel, s', hok, hcalls⟩ := hsnapshot Unit Unit BindingHooks.bindNext
    [⟨some 1, "ball", some "move", ⟨none, none, some 11, none, none⟩⟩] _ "ball" "move" () () rfl
    (by decide)
  have hstops := (Traced.failure_ok hok).trans_ne (Option.some_ne_none Fault.diverges).symm
  have hthree : _ = dispatch_table_execute BindingHooks.bindNext.onHeap 3 (some "ball")
      (some "move") () _ := dispatch_table_execute_eq _ hstops (by decide)
  rw [hthree] at hcalls
  exact absurd hcalls (by decide)

end Headcrab
