/-
# What a dispatch runs, and on which object

After any history of bindings, a dispatch runs the handlers that were bound to its target and
verb, in the order in which they were bound (`execute_runs_what_was_bound`).  The object that
it hands to them belongs to the name: it is the target of the first binding of the name, and
`NULL` for the global name, whatever the targets of the other bindings are
(`own_target_iff`).
-/
import Headcrab.ExecuteSim

namespace Headcrab

variable {A ω : Type}

/-! ## The calls that a trace shows -/

/-- The calls in a trace, without the returns. -/
def hookCalls (tr : List (HookEvent A)) : List (HookEvent A) :=
  tr.filter fun
    | .returned _ => false
    | _ => true

/-- A call of a mutator. -/
structure OpCall (A : Type) where
  fn : Fn
  object : VoidPtr
  args : A
deriving DecidableEq, Repr

/-- The calls of mutators in a trace. -/
def opCalls (tr : List (HookEvent A)) : List (OpCall A) :=
  tr.filterMap fun
    | .op f o a => some ⟨f, o, a⟩
    | _ => none

@[simp] lemma hookCalls_append (tr tr' : List (HookEvent A)) :
    hookCalls (tr ++ tr') = hookCalls tr ++ hookCalls tr' :=
  List.filter_append ..

@[simp] lemma opCalls_append (tr tr' : List (HookEvent A)) :
    opCalls (tr ++ tr') = opCalls tr ++ opCalls tr' :=
  List.filterMap_append ..

@[simp] lemma opCalls_hookCalls (tr : List (HookEvent A)) :
    opCalls (hookCalls tr) = opCalls tr := by
  induction tr with
  | nil => rfl
  | cons e tr ih => cases e <;> simpa [hookCalls, opCalls] using ih

namespace Binding

/-- The call of the pre-op function, if there is one. -/
def preCalls (b : Binding) : List (HookEvent A) :=
  (b.preOp.map fun f => .pre f b.preOpArgs).toList

/-- The calls that a binding makes: `pre`, then `op`, then `post`. -/
def block (b : Binding) (object : VoidPtr) (args : A) : List (HookEvent A) :=
  b.preCalls ++ (b.op.map fun f => .op f object args).toList
    ++ (b.postOp.map fun f => .post f b.postOpArgs).toList

end Binding

/-- The calls that handlers make one after the other, up to one without a mutator. -/
def callsOf (object : VoidPtr) (args : A) : List Handler → List (HookEvent A)
  | [] => []
  | c :: cs =>
    if c.binding.op.isSome then c.binding.block object args ++ callsOf object args cs
    else c.binding.preCalls

lemma callsOf_eq_flatMap (object : VoidPtr) (args : A) {cs : List Handler}
    (h : ∀ c ∈ cs, c.binding.op ≠ none) :
    callsOf object args cs = cs.flatMap fun c => c.binding.block object args := by
  induction cs with
  | nil => rfl
  | cons c cs ih =>
    have hc : c.binding.op.isSome = true := Option.isSome_iff_ne_none.mpr (h c (by simp))
    rw [callsOf, if_pos hc, ih fun d hd => h d (by simp [hd]), List.flatMap_cons]

/-! ## Quiet hooks -/

/-- A pre-op or post-op function, given that it returns and leaves the table as it is. -/
lemma callIfSet_quiet {event : Fn → VoidPtr → HookEvent A}
    (hevent : ∀ f a r, hookCalls [event f a, .returned r] = [event f a])
    {run : Fn → VoidPtr → Table × ω → Except Fault (HEADCRAB_ERROR × (Table × ω))} {T : Table}
    {e : ω} (hrun : ∀ f a, ∃ r e', run f a (T, e) = .ok (r, (T, e'))) (f : Option Fn)
    (args : VoidPtr) :
    ∃ e', (callIfSet event run f args (T, e)).result = .ok (T, e') ∧
      hookCalls (callIfSet event run f args (T, e)).trace
        = (f.map fun f => event f args).toList := by
  rcases f with _ | f
  · exact ⟨e, rfl, rfl⟩
  · obtain ⟨r, e', hok⟩ := hrun f args
    have hcall : callIfSet event run (some f) args (T, e)
        = ⟨[event f args, .returned r], .ok (T, e')⟩ := by
      simp only [callIfSet, hok]
      rfl
    rw [hcall]
    exact ⟨e', rfl, hevent f args r⟩

section Quiet

variable {hooks : BindingHooks A ω} (hq : hooks.Quiet)

include hq

lemma callPre_quiet (b : Binding) (T : Table) (e : ω) :
    ∃ e', (hooks.onTable.callPre b.preOp b.preOpArgs (T, e)).result = .ok (T, e') ∧
      hookCalls (hooks.onTable.callPre b.preOp b.preOpArgs (T, e)).trace = b.preCalls := by
  refine callIfSet_quiet (fun _ _ _ => rfl) (fun f a => ?_) _ _
  refine ⟨(hooks.pre f a e).1, (hooks.pre f a e).2.2, ?_⟩
  simp only [BindingHooks.onTable, hq.pre]
  rfl

lemma callPost_quiet (b : Binding) (T : Table) (e : ω) :
    ∃ e', (hooks.onTable.callPost b.postOp b.postOpArgs (T, e)).result = .ok (T, e') ∧
      hookCalls (hooks.onTable.callPost b.postOp b.postOpArgs (T, e)).trace
        = (b.postOp.map fun f => .post f b.postOpArgs).toList := by
  refine callIfSet_quiet (fun _ _ _ => rfl) (fun f a => ?_) _ _
  refine ⟨(hooks.post f a e).1, (hooks.post f a e).2.2, ?_⟩
  simp only [BindingHooks.onTable, hq.post]
  rfl

/-- A handler with a mutator runs its block. -/
lemma runHandler_quiet {b : Binding} {f : Fn} (hf : b.op = some f) (t : String) (args : A)
    (T : Table) (e : ω) :
    ∃ e', (Table.runHandler hooks.onTable t b args (T, e)).result = .ok (T, e') ∧
      hookCalls (Table.runHandler hooks.onTable t b args (T, e)).trace
        = b.block (T.objectOf t) args := by
  obtain ⟨e₁, hpre, hpreCalls⟩ := callPre_quiet hq b T e
  obtain ⟨e₃, hpost, hpostCalls⟩ :=
    callPost_quiet hq b T (hooks.op f (T.objectOf t) args e₁).2
  have hop : hooks.onTable.callOp b.op (T.objectOf t) args (T, e₁)
      = ⟨[.op f (T.objectOf t) args], .ok (T, (hooks.op f (T.objectOf t) args e₁).2)⟩ := by
    rw [hf]
    show Traced.mk _ (Except.ok (T.bindAll (hooks.op f (T.objectOf t) args e₁).1, _)) = _
    rw [hq.op]
    rfl
  refine ⟨e₃, ?_, ?_⟩
  · rw [Table.runHandler, Traced.bind_ok hpre, hop, Traced.bind_ok rfl]
    exact hpost
  · rw [Table.runHandler, Traced.bind_ok hpre, hop, Traced.bind_ok rfl]
    simp only [hookCalls_append, hpreCalls, hpostCalls, Binding.block, hf]
    simp [hookCalls]

/-- A handler without a mutator ends the dispatch after its `pre`. -/
lemma runHandler_quiet_null {b : Binding} (hf : b.op = none) (t : String) (args : A)
    (T : Table) (e : ω) :
    (Table.runHandler hooks.onTable t b args (T, e)).result = .error .nullCall ∧
      hookCalls (Table.runHandler hooks.onTable t b args (T, e)).trace = b.preCalls := by
  obtain ⟨e₁, hpre, hpreCalls⟩ := callPre_quiet hq b T e
  rw [Table.runHandler, Traced.bind_ok hpre, hf]
  refine ⟨rfl, ?_⟩
  show hookCalls (_ ++ []) = _
  rw [List.append_nil, hpreCalls]

/-- What is run from the handler with a given index on.  The induction is on the fuel, of
which one unit is used for each handler of the name. -/
lemma executeFrom_quiet (t v : String) (args : A) (T : Table) (fuel : ℕ) :
    ∀ (i : ℕ) (e : ω), ((Registry.itemsOf T t).drop i).length < fuel →
      hookCalls (Table.executeFrom hooks.onTable t v args fuel i (T, e)).trace
          = callsOf (T.objectOf t) args
            (((Registry.itemsOf T t).drop i).filter fun c => c.verb = v) ∧
        ((∀ c ∈ ((Registry.itemsOf T t).drop i).filter fun c => c.verb = v,
            c.binding.op ≠ none) →
          ∃ e', (Table.executeFrom hooks.onTable t v args fuel i (T, e)).result = .ok (T, e')) := by
  induction fuel with
  | zero => intro i e h; omega
  | succ fuel ih =>
    intro i e h
    rw [Table.executeFrom]
    rcases hc : (Registry.itemsOf T t)[i]? with _ | c
    · have hdrop : (Registry.itemsOf T t).drop i = [] :=
        List.drop_eq_nil_of_le (List.getElem?_eq_none_iff.mp hc)
      rw [hdrop]
      exact ⟨rfl, fun _ => ⟨e, rfl⟩⟩
    · obtain ⟨hi, rfl⟩ := List.getElem?_eq_some_iff.mp hc
      have hdrop := List.drop_eq_getElem_cons hi
      have hfuel : ((Registry.itemsOf T t).drop (i + 1)).length < fuel := by
        rw [hdrop, List.length_cons] at h
        omega
      rw [hdrop, List.filter_cons]
      by_cases hv : (Registry.itemsOf T t)[i].verb = v
      · simp only [hv, decide_true, if_true]
        rcases hop : (Registry.itemsOf T t)[i].binding.op with _ | f
        · -- a handler without a mutator ends the dispatch
          obtain ⟨hres, hcalls⟩ := runHandler_quiet_null hq hop t args T e
          rw [Traced.bind_error hres]
          refine ⟨?_, fun hall => ?_⟩
          · rw [callsOf, hop]
            exact hcalls
          · exact absurd hop (hall _ (by simp))
        · obtain ⟨e', hres, hcalls⟩ := runHandler_quiet hq hop t args T e
          obtain ⟨ihcalls, ihres⟩ := ih (i + 1) e' hfuel
          rw [Traced.bind_ok hres]
          refine ⟨?_, fun hall => ihres fun c hc => hall c (by simp [hc])⟩
          rw [hookCalls_append, hcalls, ihcalls, callsOf, hop]
          rfl
      · simp only [hv, decide_false, Bool.false_eq_true, if_false]
        exact ih (i + 1) e hfuel

lemma execute_quiet (t v : String) (args : A) (T : Table) (e : ω) {fuel : ℕ}
    (hfuel : (Registry.itemsOf T t).length < fuel) :
    hookCalls (Table.execute hooks.onTable fuel t v args (T, e)).trace
        = callsOf (T.objectOf t) args ((Registry.itemsOf T t).filter fun c => c.verb = v) ∧
      ((∀ c ∈ (Registry.itemsOf T t).filter fun c => c.verb = v, c.binding.op ≠ none) →
        ∃ e', (Table.execute hooks.onTable fuel t v args (T, e)).result = .ok (T, e')) := by
  rw [Table.execute]
  rcases hentry : Registry.entry T t with _ | n
  · have hitems : Registry.itemsOf T t = [] := by
      rw [Registry.itemsOf, hentry]
      rfl
    rw [hitems]
    exact ⟨rfl, fun _ => ⟨e, rfl⟩⟩
  · simpa using executeFrom_quiet hq t v args T fuel 0 e (by simpa using hfuel)

end Quiet

/-! ## The memory under quiet hooks -/

section QuietHeap

variable {hooks : BindingHooks A ω} (hq : hooks.Quiet)

lemma callIfSet_heap {s : Heap × ω} (event : Fn → VoidPtr → HookEvent A)
    {run : Fn → VoidPtr → Heap × ω → Except Fault (HEADCRAB_ERROR × (Heap × ω))}
    (hrun : ∀ f a x, run f a s = .ok x → x.2.1 = s.1) (f : Option Fn) (args : VoidPtr) :
    (callIfSet event run f args s).Ensures fun s' => s'.1 = s.1 := by
  rcases f with _ | f
  · exact Traced.Ensures.pure rfl
  · refine Traced.Ensures.bind_of_forall fun _ => ?_
    refine Traced.Ensures.bind (Traced.Ensures.lift (hrun f args)) ?_
    rintro ⟨r, s'⟩ hs'
    exact Traced.Ensures.bind_of_forall fun _ => Traced.Ensures.pure hs'

include hq

lemma runHandler_heap (node handler : Option Ptr) (args : A) (s : Heap × ω) :
    (runHandler hooks.onHeap node handler args s).Ensures fun s' => s'.1 = s.1 := by
  have hpre : ∀ (f : Fn) (a : VoidPtr) (s : Heap × ω) x,
      hooks.onHeap.pre f a s = .ok x → x.2.1 = s.1 := by
    intro f a s x hx
    simp only [BindingHooks.onHeap, hq.pre] at hx
    obtain rfl := Except.ok.inj hx
    rfl
  have hpost : ∀ (f : Fn) (a : VoidPtr) (s : Heap × ω) x,
      hooks.onHeap.post f a s = .ok x → x.2.1 = s.1 := by
    intro f a s x hx
    simp only [BindingHooks.onHeap, hq.post] at hx
    obtain rfl := Except.ok.inj hx
    rfl
  have hop : ∀ (f : Option Fn) (o : VoidPtr) (s : Heap × ω),
      (hooks.onHeap.callOp f o args s).Ensures fun s' => s'.1 = s.1 := by
    intro f o s
    rcases f with _ | f
    · exact Traced.Ensures.error
    · refine Traced.Ensures.bind_of_forall fun _ => Traced.Ensures.lift ?_
      intro x hx
      simp only [BindingHooks.onHeap, hq.op] at hx
      obtain rfl := Except.ok.inj hx
      rfl
  refine Traced.Ensures.bind_of_forall fun c => ?_
  refine Traced.Ensures.bind (callIfSet_heap _ (fun f a => hpre f a s) _ _) ?_
  intro s₁ hs₁
  refine Traced.Ensures.bind_of_forall fun c₁ => Traced.Ensures.bind_of_forall fun n => ?_
  refine Traced.Ensures.bind (hop c₁.op n.object s₁) ?_
  intro s₂ hs₂
  refine Traced.Ensures.bind_of_forall fun c₂ => ?_
  intro s₃ hs₃
  rw [callIfSet_heap _ (fun f a => hpost f a s₂) _ _ s₃ hs₃, hs₂, hs₁]

lemma executeFrom_heap (node : Option Ptr) (v : Option String) (args : A) (fuel : ℕ) :
    ∀ (p : Option Ptr) (s : Heap × ω),
      (executeFrom hooks.onHeap node v args fuel p s).Ensures fun s' => s'.1 = s.1 := by
  induction fuel with
  | zero => exact fun _ _ => Traced.Ensures.error
  | succ fuel ih =>
    intro p s
    rcases p with _ | p
    · exact Traced.Ensures.pure rfl
    · rw [executeFrom]
      refine Traced.Ensures.bind_of_forall fun c => Traced.Ensures.bind_of_forall fun eq => ?_
      split
      · refine Traced.Ensures.bind (runHandler_heap hq node (some p) args s) fun s₁ hs₁ => ?_
        refine Traced.Ensures.bind_of_forall fun c₁ => ?_
        intro s₂ hs₂
        rw [ih _ _ s₂ hs₂, hs₁]
      · exact ih _ s

lemma dispatch_table_execute_heap (fuel : ℕ) (t v : Option String) (args : A) (s : Heap × ω) :
    (dispatch_table_execute hooks.onHeap fuel t v args s).Ensures fun s' => s'.1 = s.1 := by
  refine Traced.Ensures.bind_of_forall fun node => ?_
  split
  · exact Traced.Ensures.pure rfl
  · exact Traced.Ensures.bind_of_forall fun n => executeFrom_heap hq _ _ _ _ _ s

end QuietHeap

/-! ## Dispatch runs exactly what was bound -/

/-- Hooks that do nothing. -/
def BindingHooks.idle {A : Type} : BindingHooks A Unit where
  pre _ _ e := (.HC_SUCCESS, [], e)
  op _ _ _ e := ([], e)
  post _ _ e := (.HC_SUCCESS, [], e)

lemma BindingHooks.idle_quiet : (BindingHooks.idle (A := A)).Quiet :=
  ⟨fun _ _ _ => rfl, fun _ _ _ _ => rfl, fun _ _ _ => rfl⟩

/-- **Dispatch runs exactly what was bound.**  After any history of bindings whose mutators
are not `NULL`, and with hooks that do not call back into the interface, a dispatch ends,
leaves the memory as it is, and calls the hooks of exactly the bindings of its target and
verb, each once and in the order in which they were bound, on the object of the target. -/
theorem execute_runs_what_was_bound {hooks : BindingHooks A ω} (hquiet : hooks.Quiet)
    (cs : List BindCall) (hop : ∀ c ∈ cs, c.binding.op ≠ none) (t v : String) (args : A) (e : ω) :
    ∃ h, Heap.booted.bindAll cs = .ok h ∧ ∃ N, ∀ fuel ≥ N, ∃ e',
      (dispatch_table_execute hooks.onHeap fuel (some t) (some v) args (h, e)).result
          = .ok (h, e') ∧
        hookCalls (dispatch_table_execute hooks.onHeap fuel (some t) (some v) args (h, e)).trace
          = (boundTo cs t v).flatMap fun c => c.binding.block (boundObject cs t) args := by
  obtain ⟨h, hall, hrep⟩ := bindAll_booted cs
  refine ⟨h, hall, (Registry.itemsOf (Table.init.bindAll cs) t).length + 1, fun fuel hfuel => ?_⟩
  obtain ⟨hcalls, hres⟩ := execute_quiet hquiet t v args (Table.init.bindAll cs) e hfuel
  have hsim := dispatch_table_execute_sim hooks hrep fuel t v args e
  -- the handlers of the table are the bindings of the history
  have hbound := handlers_bindAll_init cs t v
  have hset : ∀ c ∈ (boundTo cs t v).map fun c => (⟨v, c.binding⟩ : Handler),
      c.binding.op ≠ none := by
    intro c hc
    obtain ⟨d, hd, rfl⟩ := List.mem_map.mp hc
    exact hop d (List.mem_filter.mp hd).1
  rw [hbound] at hcalls hres
  obtain ⟨e', hok⟩ := hres hset
  refine ⟨e', ?_, ?_⟩
  · rcases hsim.result with ⟨x, x', hx, hx', hω, -⟩ | ⟨f, -, hf⟩
    · rw [hok] at hx'
      obtain rfl := Except.ok.inj hx'
      have hheap := dispatch_table_execute_heap hquiet fuel (some t) (some v) args (h, e) x hx
      rw [hx]
      exact congrArg Except.ok (Prod.ext hheap hω)
    · rw [hok] at hf
      exact absurd hf (by simp)
  · rw [hsim.trace_eq, hcalls, callsOf_eq_flatMap _ _ hset, objectOf_bindAll_init,
      List.flatMap_map]

/-- Two bindings of a verb of one name, with different targets, and one of another verb. -/
def twoTargets : List BindCall :=
  [⟨some 1, "ball", some "move", ⟨some 10, none, some 11, some 12, none⟩⟩,
    ⟨some 1, "ball", some "stop", ⟨none, none, some 13, none, none⟩⟩,
    ⟨some 2, "ball", some "move", ⟨none, none, some 14, none, none⟩⟩]

theorem execute_runs_twoTargets : ∃ h, Heap.booted.bindAll twoTargets = .ok h ∧
    ∃ N, ∀ fuel ≥ N, ∃ e', (dispatch_table_execute BindingHooks.idle.onHeap fuel (some "ball")
        (some "move") () (h, ())).result = .ok (h, e') ∧
      hookCalls (dispatch_table_execute BindingHooks.idle.onHeap fuel (some "ball")
          (some "move") () (h, ())).trace
        = [.pre 10 none, .op 11 (some 1) (), .post 12 none, .op 14 (some 1) ()] :=
  execute_runs_what_was_bound BindingHooks.idle_quiet twoTargets (by decide) "ball" "move" () ()

/-! ## The object of a mutator -/

/-- The owner of a name, once it has one, is not changed by what a hook binds. -/
lemma objectOf_bindAll {T : Table} {t : String} {o : VoidPtr}
    (h : Registry.ownerOf T t = some o) (cs : List BindCall) :
    (T.bindAll cs).objectOf t = o := by
  rw [Table.objectOf, Table.ownerOf_bindAll h]
  rfl

lemma opCalls_callIfSet {σ : Type} {event : Fn → VoidPtr → HookEvent A}
    (hevent : ∀ f a, opCalls [event f a] = [])
    {run : Fn → VoidPtr → σ → Except Fault (HEADCRAB_ERROR × σ)} (f : Option Fn) (args : VoidPtr)
    (s : σ) : opCalls (callIfSet event run f args s).trace = [] := by
  rcases f with _ | f
  · rfl
  · rcases hrun : run f args s with x | ⟨r, s'⟩
    · rw [callIfSet, hrun]
      exact hevent f args
    · rw [callIfSet, hrun]
      show opCalls ([event f args] ++ [.returned r]) = []
      rw [opCalls_append, hevent]
      rfl

section Binding

variable (hooks : BindingHooks A ω)

lemma callPre_binds (pre : Option Fn) (preArgs : VoidPtr) (T : Table) (e : ω) :
    ∃ cs e', (hooks.onTable.callPre pre preArgs (T, e)).result = .ok (T.bindAll cs, e') := by
  rcases pre with _ | f
  · exact ⟨[], e, rfl⟩
  · exact ⟨(hooks.pre f preArgs e).2.1, (hooks.pre f preArgs e).2.2, rfl⟩

lemma callPost_binds (post : Option Fn) (postArgs : VoidPtr) (T : Table) (e : ω) :
    ∃ cs e', (hooks.onTable.callPost post postArgs (T, e)).result = .ok (T.bindAll cs, e') := by
  rcases post with _ | f
  · exact ⟨[], e, rfl⟩
  · exact ⟨(hooks.post f postArgs e).2.1, (hooks.post f postArgs e).2.2, rfl⟩

/-- A handler calls its mutator, on the object of the name, or faults if it has none; the
hooks bind. -/
lemma runHandler_binding {T : Table} {t : String} {o : VoidPtr}
    (ho : Registry.ownerOf T t = some o) (b : Binding) (args : A) (e : ω) :
    (b.op = none ∧ (∃ x, (Table.runHandler hooks.onTable t b args (T, e)).result = .error x) ∧
      opCalls (Table.runHandler hooks.onTable t b args (T, e)).trace = []) ∨
    ∃ f cs e', b.op = some f ∧
      (Table.runHandler hooks.onTable t b args (T, e)).result = .ok (T.bindAll cs, e') ∧
      opCalls (Table.runHandler hooks.onTable t b args (T, e)).trace = [⟨f, o, args⟩] := by
  obtain ⟨cs₁, e₁, hpre⟩ := callPre_binds hooks b.preOp b.preOpArgs T e
  have hpreCalls : opCalls (hooks.onTable.callPre b.preOp b.preOpArgs (T, e)).trace = [] :=
    opCalls_callIfSet (fun _ _ => rfl) _ _ _
  rw [Table.runHandler, Traced.bind_ok hpre]
  rcases hop : b.op with _ | f
  · refine Or.inl ⟨rfl, ⟨.nullCall, rfl⟩, ?_⟩
    show opCalls (_ ++ []) = []
    rw [List.append_nil]
    exact hpreCalls
  · rcases hbinds : hooks.op f o args e₁ with ⟨cs₂, e₂⟩
    have hcall : hooks.onTable.callOp (some f) ((T.bindAll cs₁).objectOf t) args
        (T.bindAll cs₁, e₁) = ⟨[.op f o args], .ok ((T.bindAll cs₁).bindAll cs₂, e₂)⟩ := by
      rw [objectOf_bindAll ho]
      show Traced.mk _ (Except.ok ((T.bindAll cs₁).bindAll (hooks.op f o args e₁).1, _)) = _
      rw [hbinds]
      rfl
    obtain ⟨cs₃, e₃, hpost⟩ := callPost_binds hooks b.postOp b.postOpArgs
      ((T.bindAll cs₁).bindAll cs₂) e₂
    have hpostCalls : opCalls (hooks.onTable.callPost b.postOp b.postOpArgs
        ((T.bindAll cs₁).bindAll cs₂, e₂)).trace = [] :=
      opCalls_callIfSet (fun _ _ => rfl) _ _ _
    refine Or.inr ⟨f, cs₁ ++ cs₂ ++ cs₃, e₃, rfl, ?_, ?_⟩
    · rw [hcall, Traced.bind_ok rfl, Table.bindAll_append, Table.bindAll_append]
      exact hpost
    · rw [hcall, Traced.bind_ok rfl, opCalls_append, opCalls_append, hpreCalls, hpostCalls]
      rfl

/-- Whatever the hooks bind, the calls of mutators from a handler on are first those of the
handlers that were there, on the object of the name, as long as none of them is `NULL`. -/
lemma opCalls_executeFrom (t v : String) (args : A) (o : VoidPtr) (fuel : ℕ) :
    ∀ (T : Table) (i : ℕ) (e : ω), Registry.ownerOf T t = some o →
      ∀ (k : ℕ) (x : OpCall A) (c : Handler),
      (opCalls (Table.executeFrom hooks.onTable t v args fuel i (T, e)).trace)[k]? = some x →
      (((Registry.itemsOf T t).drop i).filter fun c => c.verb = v)[k]? = some c →
      c.binding.op = some x.fn ∧ x.object = o ∧ x.args = args ∧
        ∀ d ∈ (((Registry.itemsOf T t).drop i).filter fun c => c.verb = v).take (k + 1),
          d.binding.op ≠ none := by
  induction fuel with
  | zero =>
    intro T i e ho k x c hx hc
    exact absurd hx (by simp [Table.executeFrom, opCalls])
  | succ fuel ih =>
    intro T i e ho k x c hx hc
    rw [Table.executeFrom] at hx
    rcases hi : (Registry.itemsOf T t)[i]? with _ | d
    · rw [hi] at hx
      exact absurd hx (by simp [opCalls])
    · obtain ⟨hlt, rfl⟩ := List.getElem?_eq_some_iff.mp hi
      have hdrop := List.drop_eq_getElem_cons hlt
      rw [hi] at hx
      rw [hdrop, List.filter_cons] at hc ⊢
      by_cases hv : (Registry.itemsOf T t)[i].verb = v
      · simp only [hv, decide_true, if_true] at hx hc ⊢
        rcases runHandler_binding hooks ho (Registry.itemsOf T t)[i].binding args e with
          ⟨-, ⟨y, hres⟩, hcalls⟩ | ⟨f, cs, e', hop, hres, hcalls⟩
        · rw [Traced.bind_error hres, hcalls] at hx
          exact absurd hx (by simp)
        · rw [Traced.bind_ok hres, opCalls_append, hcalls] at hx
          rcases k with _ | k
          · obtain rfl := Option.some.inj hx
            obtain rfl := Option.some.inj hc
            refine ⟨hop, rfl, rfl, fun d hd => ?_⟩
            rw [List.take_succ_cons, List.take_zero, List.mem_singleton] at hd
            rw [hd, hop]
            simp
          · -- what was bound in the meantime comes behind the handlers that were there
            have hitems := Table.itemsOf_bindAll T cs t
            have hmore : ((Registry.itemsOf (T.bindAll cs) t).drop (i + 1)).filter
                  (fun c => c.verb = v)
                = ((Registry.itemsOf T t).drop (i + 1)).filter (fun c => c.verb = v)
                  ++ (cs.filterMap (BindCall.handlerFor t)).filter fun c => c.verb = v := by
              rw [hitems, List.drop_append_of_le_length (by omega), List.filter_append]
            rw [List.getElem?_cons_succ] at hc
            have hk := (List.getElem?_eq_some_iff.mp hc).1
            obtain ⟨hfn, hobj, hargs, hall⟩ := ih (T.bindAll cs) (i + 1) e'
              (Table.ownerOf_bindAll ho cs) k x c hx
              (by rw [hmore]; exact getElem?_extend (List.prefix_append _ _) hc)
            refine ⟨hfn, hobj, hargs, fun d hd => ?_⟩
            rw [List.take_succ_cons, List.mem_cons] at hd
            rcases hd with rfl | hd
            · rw [hop]
              simp
            · refine hall d ?_
              rw [hmore, List.take_append_of_le_length (by omega)]
              exact hd
      · simp only [hv, decide_false, Bool.false_eq_true, if_false] at hx hc ⊢
        exact ih T (i + 1) e ho k x c hx hc

end Binding

/-- Every mutator that was bound gets the object it was bound with: after the history, in a
dispatch whose hooks return and may bind, the call number `k` of a mutator is that of the
binding number `k` of the target and the verb, on that binding's own target. -/
def OwnTarget (cs : List BindCall) : Prop :=
  ∀ (A ω : Type) (hooks : BindingHooks A ω) (h : Heap) (fuel : ℕ) (t v : String) (args : A)
    (e : ω), Heap.booted.bindAll cs = .ok h → ∀ (k : ℕ) (x : OpCall A) (c : BindCall),
    (opCalls (dispatch_table_execute hooks.onHeap fuel (some t) (some v) args (h, e)).trace)[k]?
        = some x →
    (boundTo cs t v)[k]? = some c → c.binding.op = some x.fn ∧ x.object = c.target

/-- Every binding that a dispatch gets to (no binding of its name and verb up to it has a
`NULL` mutator) was made with the target with which its name was first bound, and with
`NULL` if its name is the global one. -/
def SameTarget (cs : List BindCall) : Prop :=
  ∀ (t v : String) (k : ℕ) (c : BindCall), (boundTo cs t v)[k]? = some c →
    (∀ d ∈ (boundTo cs t v).take (k + 1), d.binding.op ≠ none) → c.target = boundObject cs t

lemma opCalls_block {b : Binding} {f : Fn} (hf : b.op = some f) (o : VoidPtr) (args : A) :
    opCalls (b.block o args) = [⟨f, o, args⟩] := by
  rw [Binding.block, hf]
  rcases hpre : b.preOp <;> rcases hpost : b.postOp <;> simp [Binding.preCalls, hpre, opCalls]

/-- Handlers with mutators call them one after the other. -/
lemma opCalls_callsOf (o : VoidPtr) (args : A) {cs : List Handler} {k : ℕ} {c : Handler}
    (hc : cs[k]? = some c) (hall : ∀ d ∈ cs.take (k + 1), d.binding.op ≠ none) :
    ∃ f, (opCalls (callsOf o args cs))[k]? = some ⟨f, o, args⟩ := by
  induction cs generalizing k with
  | nil => simp at hc
  | cons d cs ih =>
    rw [List.take_succ_cons] at hall
    obtain ⟨f, hf⟩ := Option.ne_none_iff_exists'.mp (hall d (by simp))
    rw [callsOf, hf, Option.isSome_some, if_pos rfl, opCalls_append, opCalls_block hf]
    rcases k with _ | k
    · exact ⟨f, rfl⟩
    · rw [List.getElem?_cons_succ] at hc
      rw [List.singleton_append, List.getElem?_cons_succ]
      exact ih hc fun d hd => hall d (by simp [hd])

lemma sameTarget_of_ownTarget {cs : List BindCall} (hown : OwnTarget cs) : SameTarget cs := by
  obtain ⟨h, hall, hrep⟩ := bindAll_booted cs
  intro t v k c hc hset
  have hsim := dispatch_table_execute_sim BindingHooks.idle hrep
    ((Registry.itemsOf (Table.init.bindAll cs) t).length + 1) t v () ()
  obtain ⟨hcalls, -⟩ := execute_quiet BindingHooks.idle_quiet t v () (Table.init.bindAll cs) ()
    (Nat.lt_succ_self _)
  rw [handlers_bindAll_init, objectOf_bindAll_init] at hcalls
  have hc' : ((boundTo cs t v).map fun c => (⟨v, c.binding⟩ : Handler))[k]?
      = some ⟨v, c.binding⟩ := by
    rw [List.getElem?_map, hc]
    rfl
  have hset' : ∀ d ∈ ((boundTo cs t v).map fun c => (⟨v, c.binding⟩ : Handler)).take (k + 1),
      d.binding.op ≠ none := by
    intro d hd
    rw [← List.map_take] at hd
    obtain ⟨d', hd', rfl⟩ := List.mem_map.mp hd
    exact hset d' hd'
  obtain ⟨f, hf⟩ := opCalls_callsOf (boundObject cs t) () hc' hset'
  rw [← hcalls, opCalls_hookCalls, ← hsim.trace_eq] at hf
  exact (hown Unit Unit _ h _ t v () () hall k _ c hf hc).2.symm

lemma ownTarget_of_sameTarget {cs : List BindCall} (hsame : SameTarget cs) : OwnTarget cs := by
  obtain ⟨h, hall, hrep⟩ := bindAll_booted cs
  intro A ω hooks h' fuel t v args e hall' k x c hx hc
  obtain rfl : h = h' := Except.ok.inj (hall.symm.trans hall')
  have hsim := dispatch_table_execute_sim hooks hrep fuel t v args e
  rw [hsim.trace_eq, Table.execute] at hx
  rcases hentry : Registry.entry (Table.init.bindAll cs) t with _ | n
  · rw [hentry] at hx
    exact absurd hx (by simp [opCalls])
  · rw [hentry] at hx
    have howner : Registry.ownerOf (Table.init.bindAll cs) t = some n.owner := by
      rw [Registry.ownerOf, hentry]
      rfl
    have hc' : (((Registry.itemsOf (Table.init.bindAll cs) t).drop 0).filter
        fun c => c.verb = v)[k]? = some ⟨v, c.binding⟩ := by
      rw [List.drop_zero, handlers_bindAll_init, List.getElem?_map, hc]
      rfl
    obtain ⟨hfn, hobj, -, hset⟩ := opCalls_executeFrom hooks t v args n.owner fuel
      (Table.init.bindAll cs) 0 e howner k x _ hx hc'
    have hobject : boundObject cs t = n.owner := by
      rw [← objectOf_bindAll_init, Table.objectOf, howner]
      rfl
    refine ⟨hfn, ?_⟩
    rw [hobj, ← hobject]
    refine (hsame t v k c hc fun d hd => ?_).symm
    refine hset ⟨v, d.binding⟩ ?_
    rw [List.drop_zero, handlers_bindAll_init, ← List.map_take]
    exact List.mem_map_of_mem (f := fun c : BindCall => (⟨v, c.binding⟩ : Handler)) hd

/-- **When a mutator gets the object it was bound with.**  The table keeps one object for a
name, the target of its first binding, so exactly when no binding that is run has another. -/
theorem own_target_iff (cs : List BindCall) : OwnTarget cs ↔ SameTarget cs :=
  ⟨sameTarget_of_ownTarget, ownTarget_of_sameTarget⟩

/-- The second binding of `move` gets the target of the first. -/
theorem not_own_target : ¬ OwnTarget twoTargets := by
  intro hown
  have hsecond := hown Unit Unit BindingHooks.idle _ 4 "ball" "move" () () rfl 1 ⟨14, some 1, ()⟩
    ⟨some 2, "ball", some "move", ⟨none, none, some 14, none, none⟩⟩ (by decide) (by decide)
  exact absurd hsecond.2 (by decide)

end Headcrab
