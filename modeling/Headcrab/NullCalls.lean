/-
# Calls through `NULL`

`dispatch_table_execute` calls a pre-op or a post-op function only if it is there, but calls
the mutator whether it is there or not, and `headcrab_bind_object` lets a host program bind
a verb without one.  Everything else that a client can send is guarded: the strings that are
compared are those of the table, which are there, and those of the message, which have been
looked at (`never_null_iff`).

That a dispatch returns is a matter of the hooks: it does if they return and bind only so
many objects and verbs (`dispatchesReturn_of_budget`).
-/
import Headcrab.Requests

namespace Headcrab

open Json

variable {ω : Type}

/-! ## Tables whose mutators are there -/

/-- What the hooks bind has a mutator. -/
structure BindingHooks.BindOps {A : Type} (hooks : BindingHooks A ω) : Prop where
  pre : ∀ f a e, ∀ c ∈ (hooks.pre f a e).2.1, c.binding.op ≠ none
  op : ∀ f o a e, ∀ c ∈ (hooks.op f o a e).1, c.binding.op ≠ none
  post : ∀ f a e, ∀ c ∈ (hooks.post f a e).2.1, c.binding.op ≠ none

/-- The handlers of a verb of a name have mutators. -/
def Table.HasOps (T : Table) (t v : String) : Prop :=
  ∀ c ∈ (Registry.itemsOf T t).filter fun c => c.verb = v, c.binding.op ≠ none

lemma Table.HasOps.bindAll {T : Table} {t v : String} (h : T.HasOps t v) {cs : List BindCall}
    (hcs : ∀ c ∈ cs, c.binding.op ≠ none) : (T.bindAll cs).HasOps t v := by
  intro c hc
  rw [itemsOf_bindAll, List.filter_append, List.mem_append] at hc
  rcases hc with hc | hc
  · exact h c hc
  · obtain ⟨d, hd, hcd⟩ := List.mem_filterMap.mp (List.mem_filter.mp hc).1
    rw [BindCall.handlerFor, Option.ite_none_right_eq_some, Option.map_eq_some_iff] at hcd
    obtain ⟨-, v', -, rfl⟩ := hcd
    exact hcs d hd

lemma hasOps_bindAll_init {cs : List BindCall} {t v : String} :
    (Table.init.bindAll cs).HasOps t v ↔ ∀ c ∈ boundTo cs t v, c.binding.op ≠ none := by
  rw [Table.HasOps, handlers_bindAll_init]
  exact List.forall_mem_map

section BindOps

variable {A : Type} {hooks : BindingHooks A ω} (hops : hooks.BindOps)

/-- The computation ends in a table with more bindings, all with mutators. -/
def AddsOps (T : Table) (x : Traced (HookEvent A) Fault (Table × ω)) : Prop :=
  ∃ cs e', x.result = .ok (T.bindAll cs, e') ∧ ∀ c ∈ cs, c.binding.op ≠ none

omit hops in
lemma AddsOps.bind {T : Table} {x : Traced (HookEvent A) Fault (Table × ω)}
    {f : Table × ω → Traced (HookEvent A) Fault (Table × ω)} (hx : AddsOps T x)
    (hf : ∀ cs e', (∀ c ∈ cs, c.binding.op ≠ none) →
      AddsOps (T.bindAll cs) (f (T.bindAll cs, e'))) : AddsOps T (x >>= f) := by
  obtain ⟨cs, e, hx, hcs⟩ := hx
  obtain ⟨cs', e', hfx, hcs'⟩ := hf cs e hcs
  refine ⟨cs ++ cs', e', ?_, fun c hc => ?_⟩
  · rw [Traced.bind_ok hx, Table.bindAll_append]
    exact hfx
  · exact (List.mem_append.mp hc).elim (hcs c) (hcs' c)

include hops

lemma callPre_addsOps (pre : Option Fn) (preArgs : VoidPtr) (T : Table) (e : ω) :
    AddsOps T (hooks.onTable.callPre pre preArgs (T, e)) := by
  rcases pre with _ | f
  · exact ⟨[], e, rfl, by simp⟩
  · exact ⟨_, _, rfl, hops.pre f preArgs e⟩

lemma callPost_addsOps (post : Option Fn) (postArgs : VoidPtr) (T : Table) (e : ω) :
    AddsOps T (hooks.onTable.callPost post postArgs (T, e)) := by
  rcases post with _ | f
  · exact ⟨[], e, rfl, by simp⟩
  · exact ⟨_, _, rfl, hops.post f postArgs e⟩

lemma runHandler_addsOps {b : Binding} (hb : b.op ≠ none) (t : String) (args : A) (T : Table)
    (e : ω) : AddsOps T (Table.runHandler hooks.onTable t b args (T, e)) := by
  obtain ⟨f, hf⟩ := Option.ne_none_iff_exists'.mp hb
  refine (callPre_addsOps hops _ _ T e).bind fun cs e₁ _ => AddsOps.bind ?_ fun cs' e₂ _ =>
    callPost_addsOps hops _ _ _ e₂
  rw [hf]
  exact ⟨_, _, rfl, hops.op f _ args e₁⟩

/-- The walk through handlers with mutators does not end in a fault. -/
lemma executeFrom_addsOps (t v : String) (args : A) (fuel : ℕ) :
    ∀ (T : Table) (i : ℕ) (e : ω), T.HasOps t v →
      (Table.executeFrom hooks.onTable t v args fuel i (T, e)).result = .error .diverges ∨
        AddsOps T (Table.executeFrom hooks.onTable t v args fuel i (T, e)) := by
  induction fuel with
  | zero => exact fun T i e _ => Or.inl rfl
  | succ fuel ih =>
    intro T i e hT
    rw [Table.executeFrom]
    rcases hi : (Registry.itemsOf T t)[i]? with _ | d
    · exact Or.inr ⟨[], e, rfl, by simp⟩
    · by_cases hv : d.verb = v
      · have hd : d.binding.op ≠ none :=
          hT d (List.mem_filter.mpr ⟨List.mem_of_getElem? hi, by simpa using hv⟩)
        obtain ⟨cs, e₁, hres, hcs⟩ := runHandler_addsOps hops hd t args T e
        simp only [hv, if_true]
        rcases ih (T.bindAll cs) (i + 1) e₁ (hT.bindAll hcs) with hdiv | ⟨cs', e', hok, hcs'⟩
        · left
          rw [Traced.bind_ok hres]
          exact hdiv
        · right
          refine ⟨cs ++ cs', e', ?_, fun c hc => (List.mem_append.mp hc).elim (hcs c) (hcs' c)⟩
          rw [Traced.bind_ok hres, Table.bindAll_append]
          exact hok
      · simp only [hv, if_false]
        exact ih T (i + 1) e hT

lemma execute_addsOps {t v : String} {T : Table} (hT : T.HasOps t v) (args : A) (fuel : ℕ)
    (e : ω) :
    (Table.execute hooks.onTable fuel t v args (T, e)).result = .error .diverges ∨
      AddsOps T (Table.execute hooks.onTable fuel t v args (T, e)) := by
  rw [Table.execute]
  rcases Registry.entry T t with _ | n
  · exact Or.inr ⟨[], e, rfl, by simp⟩
  · exact executeFrom_addsOps hops t v args fuel T 0 e hT

end BindOps

/-- A handler without a mutator is called, after what is in front of it. -/
lemma execute_null {A : Type} {hooks : BindingHooks A ω} (hq : hooks.Quiet) {t v : String}
    {T : Table} (hT : ¬ T.HasOps t v) (args : A) (e : ω) {fuel : ℕ}
    (hfuel : (Registry.itemsOf T t).length < fuel) :
    (Table.execute hooks.onTable fuel t v args (T, e)).result = .error .nullCall := by
  have hfrom : ∀ (fuel i : ℕ) (e : ω), ((Registry.itemsOf T t).drop i).length < fuel →
      (∃ c ∈ ((Registry.itemsOf T t).drop i).filter fun c => c.verb = v, c.binding.op = none) →
      (Table.executeFrom hooks.onTable t v args fuel i (T, e)).result = .error .nullCall := by
    intro fuel
    induction fuel with
    | zero => exact fun i e h => absurd h (by omega)
    | succ fuel ih =>
      rintro i e h ⟨c, hc, hop⟩
      rw [Table.executeFrom]
      rcases hi : (Registry.itemsOf T t)[i]? with _ | d
      · rw [List.drop_eq_nil_of_le (List.getElem?_eq_none_iff.mp hi)] at hc
        exact absurd hc (by simp)
      · obtain ⟨hlt, rfl⟩ := List.getElem?_eq_some_iff.mp hi
        have hdrop := List.drop_eq_getElem_cons hlt
        have hnext : ((Registry.itemsOf T t).drop (i + 1)).length < fuel := by
          rw [hdrop, List.length_cons] at h
          omega
        rw [hdrop, List.filter_cons] at hc
        by_cases hv : (Registry.itemsOf T t)[i].verb = v
        · simp only [hv, decide_true, if_true, List.mem_cons] at hc ⊢
          rcases hb : (Registry.itemsOf T t)[i].binding.op with _ | f
          · rw [Traced.bind_error (runHandler_quiet_null hq hb t args T e).1]
          · obtain ⟨e', hres, -⟩ := runHandler_quiet hq hb t args T e
            rw [Traced.bind_ok hres]
            rcases hc with rfl | hc
            · exact absurd (hb.symm.trans hop) (by simp)
            · exact ih (i + 1) e' hnext ⟨c, hc, hop⟩
        · simp only [hv, decide_false, Bool.false_eq_true, if_false] at hc ⊢
          exact ih (i + 1) e hnext ⟨c, hc, hop⟩
  obtain ⟨c, hc, hop⟩ : ∃ c ∈ (Registry.itemsOf T t).filter fun c => c.verb = v,
      c.binding.op = none := by
    simpa [Table.HasOps, and_assoc] using hT
  rw [Table.execute]
  rcases hentry : Registry.entry T t with _ | n
  · rw [Registry.itemsOf, hentry] at hc
    exact absurd hc (by simp)
  · exact hfrom fuel 0 e (by simpa using hfuel) ⟨c, by simpa using hc, hop⟩

/-! ## Handling everything that waits -/

/-- The messages that `headcrab_handle_commands` gets to: those in front of the first `NULL`. -/
def handled (m : Rings Json) : List Json := ((waiting m).takeWhile Option.isSome).filterMap id

lemma handled_eq {m : Rings Json} {messages : List Json} {rest : List (Option Json)}
    (hm : waiting m = messages.map some ++ rest) (hrest : rest = [] ∨ ∃ r, rest = none :: r) :
    handled m = messages := by
  have hall : ∀ v ∈ messages.map some, Option.isSome v = Bool.true := by simp
  have htake : rest.takeWhile Option.isSome = [] := by
    rcases hrest with rfl | ⟨r, rfl⟩ <;> rfl
  rw [handled, hm, List.takeWhile_append_of_pos hall, htake, List.append_nil,
    List.filterMap_map]
  simp

/-- `headcrab_handle_commands` ends in a fault exactly if the messages that it gets to do. -/
lemma handle_commands_error (hooks : Hooks (Option Json) (Heap × ω)) (fuel : ℕ) (m : Rings Json)
    (s : Heap × ω) (e : Fault) :
    (headcrab_handle_commands hooks fuel m s).result = .error e ↔
      (dispatchAll hooks fuel (handled m) s).result = .error e := by
  obtain ⟨messages, rest, hm, hrest⟩ := exists_split_none (waiting m)
  have hlen : messages.length < (m .MQ_IN).1.contents.length + 1 := by
    have hle : messages.length ≤ (waiting m).length := by
      rw [hm, List.length_append, List.length_map]
      omega
    exact Nat.lt_succ_of_le hle
  obtain ⟨hok, herror⟩ := handleFrom_spec hooks fuel hrest messages _ m s hm hlen
  rw [handled_eq hm hrest, headcrab_handle_commands]
  refine ⟨fun h => ?_, herror e⟩
  rcases hd : (dispatchAll hooks fuel messages s).result with e' | s'
  · obtain rfl := Except.error.inj ((herror e' hd).symm.trans h)
    rfl
  · obtain ⟨m', hres, -⟩ := hok s' hd
    rw [hres] at h
    exact absurd h (by simp)

/-- The commands among the messages have mutators in the table. -/
def CommandsHaveOps (messages : List Json) (T : Table) : Prop :=
  ∀ message ∈ messages, ∀ t v n, IsCommand message t v n → T.HasOps t v

/-- Commands that have mutators can only run out of fuel. -/
lemma dispatchAll_of_haveOps {hooks : BindingHooks (Option Json) ω} (hops : hooks.BindOps)
    (fuel : ℕ) (messages : List Json) : ∀ (T : Table) (h : Heap) (e : ω), h.Represents T →
      CommandsHaveOps messages T → ∀ x,
      (dispatchAll hooks.onHeap fuel messages (h, e)).result = .error x → x = .diverges := by
  induction messages with
  | nil => exact fun T h e _ _ x hx => absurd hx (by simp [dispatchAll])
  | cons message messages ih =>
    intro T h e hrep hall x hx
    have hrest : ∀ cs : List BindCall, (∀ c ∈ cs, c.binding.op ≠ none) →
        CommandsHaveOps messages (T.bindAll cs) := fun cs hcs message' hmem t v n hcommand =>
      (hall message' (List.mem_cons_of_mem _ hmem) t v n hcommand).bindAll hcs
    rw [dispatchAll] at hx
    rcases command_or_not message with ⟨t, v, n, hcommand⟩ | hnot
    · rw [dispatch_command hcommand] at hx
      have hsim := dispatch_table_execute_sim hooks hrep fuel t v (json_object_set
        (json_object_get (some message) "args") "seqID" (some (.integer n))) e
      have htable := execute_addsOps hops (hall message (by simp) t v n hcommand)
        (json_object_set (json_object_get (some message) "args") "seqID" (some (.integer n)))
        fuel e
      rcases hsim.result with ⟨⟨h', e₁⟩, b, hy, hb, -, hrep'⟩ | ⟨y, hy, hb⟩
      · rw [Traced.bind_ok hy] at hx
        rcases htable with hdiv | ⟨cs, e', hok, hcs⟩
        · rw [hb] at hdiv
          exact absurd hdiv (by simp)
        · rw [hb] at hok
          obtain rfl := Except.ok.inj hok
          exact ih (T.bindAll cs) h' e₁ hrep' (hrest cs hcs) x hx
      · rw [Traced.bind_error hy] at hx
        obtain rfl := Except.error.inj hx
        rcases htable with hdiv | ⟨cs, e', hok, -⟩
        · exact Except.error.inj (hb.symm.trans hdiv)
        · rw [hb] at hok
          exact absurd hok (by simp)
    · rw [dispatch_of_not_command hnot] at hx
      exact ih T h e hrep (hrest [] (by simp)) x hx

/-! ## Commands that can be dispatched -/

section Budget

variable {A : Type} {hooks : BindingHooks A ω} {budget : ω → ℕ}

/-- The hooks bind only so often: what they bind uses up the budget of the host program. -/
structure BindingHooks.Budgeted (hooks : BindingHooks A ω) (budget : ω → ℕ) : Prop where
  pre : ∀ f a e, (hooks.pre f a e).2.1.length + budget (hooks.pre f a e).2.2 ≤ budget e
  op : ∀ f o a e, (hooks.op f o a e).1.length + budget (hooks.op f o a e).2 ≤ budget e
  post : ∀ f a e, (hooks.post f a e).2.1.length + budget (hooks.post f a e).2.2 ≤ budget e

/-- The computation comes to an end, with a table for whose bindings the budget was enough. -/
structure Spends (budget : ω → ℕ) (T : Table) (e : ω)
    (x : Traced (HookEvent A) Fault (Table × ω)) : Prop where
  ends : x.result ≠ .error .diverges
  spent : Traced.Ensures x fun s =>
    ∃ cs : List BindCall, s.1 = T.bindAll cs ∧ cs.length + budget s.2 ≤ budget e

lemma Spends.pure (T : Table) (e : ω) :
    Spends budget T e (Pure.pure (T, e) : Traced (HookEvent A) Fault (Table × ω)) := by
  refine ⟨by simp [Pure.pure], Traced.Ensures.pure ⟨[], rfl, ?_⟩⟩
  rw [List.length_nil, Nat.zero_add]

lemma Spends.of_ok {T : Table} {e e' : ω} {x : Traced (HookEvent A) Fault (Table × ω)}
    {cs : List BindCall} (hx : x.result = .ok (T.bindAll cs, e'))
    (hle : cs.length + budget e' ≤ budget e) : Spends budget T e x := by
  refine ⟨by simp [hx], fun s hs => ?_⟩
  obtain rfl := Except.ok.inj (hx.symm.trans hs)
  exact ⟨cs, rfl, hle⟩

lemma Spends.bind {T : Table} {e : ω} {x : Traced (HookEvent A) Fault (Table × ω)}
    {f : Table × ω → Traced (HookEvent A) Fault (Table × ω)} (hx : Spends budget T e x)
    (hf : ∀ (cs : List BindCall) e', cs.length + budget e' ≤ budget e →
      Spends budget (T.bindAll cs) e' (f (T.bindAll cs, e'))) : Spends budget T e (x >>= f) := by
  rcases hres : x.result with err | ⟨T', e'⟩
  · have hbind := Traced.bind_error hres f
    refine ⟨?_, fun s hs => ?_⟩
    · rw [hbind, ← hres]
      exact hx.ends
    · rw [hbind] at hs
      exact absurd hs (by simp)
  · obtain ⟨cs, rfl, hle⟩ := hx.spent _ hres
    change cs.length + budget e' ≤ budget e at hle
    obtain ⟨hends, hspent⟩ := hf cs e' hle
    have hbind := Traced.bind_ok hres f
    refine ⟨?_, fun s hs => ?_⟩
    · rw [hbind]
      exact hends
    · rw [hbind] at hs
      obtain ⟨cs', hs', hle'⟩ := hspent s hs
      refine ⟨cs ++ cs', by rw [hs', Table.bindAll_append], ?_⟩
      rw [List.length_append]
      omega

variable (hbudget : hooks.Budgeted budget)

include hbudget

lemma runHandler_spends (b : Binding) (t : String) (args : A) (T : Table) (e : ω) :
    Spends budget T e (Table.runHandler hooks.onTable t b args (T, e)) := by
  have hpre : Spends budget T e (hooks.onTable.callPre b.preOp b.preOpArgs (T, e)) := by
    rcases b.preOp with _ | f
    · exact .pure T e
    · exact .of_ok rfl (hbudget.pre f b.preOpArgs e)
  refine hpre.bind fun cs e₁ _ => Spends.bind ?_ fun cs' e₂ _ => ?_
  · rcases b.op with _ | f
    · exact ⟨fun h => absurd (Except.error.inj h) (by simp), fun s hs => absurd hs (by
        rintro ⟨⟩)⟩
    · exact .of_ok rfl (hbudget.op f _ args e₁)
  · rcases b.postOp with _ | f
    · exact .pure _ e₂
    · exact .of_ok rfl (hbudget.post f b.postOpArgs e₂)

/-- The walk is over when every handler, those bound meanwhile among them, has been visited. -/
lemma executeFrom_spends (t v : String) (args : A) (fuel : ℕ) : ∀ (T : Table) (i : ℕ) (e : ω),
    i ≤ (Registry.itemsOf T t).length → (Registry.itemsOf T t).length + budget e < i + fuel →
    Spends budget T e (Table.executeFrom hooks.onTable t v args fuel i (T, e)) := by
  induction fuel with
  | zero =>
    intro T i e hi hlt
    exact absurd hlt (by omega)
  | succ fuel ih =>
    intro T i e hi hlt
    rw [Table.executeFrom]
    rcases hitem : (Registry.itemsOf T t)[i]? with _ | d
    · exact .pure T e
    · have hlt' := (List.getElem?_eq_some_iff.mp hitem).1
      by_cases hv : d.verb = v
      · simp only [hv, if_true]
        refine (runHandler_spends hbudget d.binding t args T e).bind fun cs e' hle => ?_
        have hlength : (Registry.itemsOf (T.bindAll cs) t).length
            ≤ (Registry.itemsOf T t).length + cs.length := by
          rw [Table.itemsOf_bindAll, List.length_append]
          exact Nat.add_le_add_left (List.length_filterMap_le _ cs) _
        have hle' : (Registry.itemsOf T t).length
            ≤ (Registry.itemsOf (T.bindAll cs) t).length := by
          rw [Table.itemsOf_bindAll, List.length_append]
          exact Nat.le_add_right _ _
        exact ih (T.bindAll cs) (i + 1) e' (by omega) (by omega)
      · simp only [hv, if_false]
        exact ih T (i + 1) e hlt' (by omega)

lemma execute_spends (t v : String) (args : A) {fuel : ℕ} {T : Table} {e : ω}
    (hfuel : (Registry.itemsOf T t).length + budget e < fuel) :
    Spends budget T e (Table.execute hooks.onTable fuel t v args (T, e)) := by
  rw [Table.execute]
  rcases Registry.entry T t with _ | n
  · exact .pure T e
  · exact executeFrom_spends hbudget t v args fuel T 0 e (Nat.zero_le _) (by simpa using hfuel)

end Budget

/-- With enough fuel, messages are dispatched to an end. -/
lemma dispatchAll_ends {hooks : BindingHooks (Option Json) ω} {budget : ω → ℕ}
    (hbudget : hooks.Budgeted budget) (fuel : ℕ) (messages : List Json) :
    ∀ (T : Table) (h : Heap) (e : ω), h.Represents T →
      (∀ t, (Registry.itemsOf T t).length + budget e < fuel) →
      (dispatchAll hooks.onHeap fuel messages (h, e)).result ≠ .error .diverges := by
  induction messages with
  | nil => exact fun T h e _ _ hdiv => absurd hdiv (by simp [dispatchAll])
  | cons message messages ih =>
    intro T h e hrep hfuel
    rw [dispatchAll]
    rcases command_or_not message with ⟨t, v, n, hcommand⟩ | hnot
    · rw [dispatch_command hcommand]
      obtain ⟨hends, hspent⟩ := execute_spends hbudget t v (json_object_set
        (json_object_get (some message) "args") "seqID" (some (.integer n))) (hfuel t)
      rcases (dispatch_table_execute_sim hooks hrep fuel t v (json_object_set
        (json_object_get (some message) "args") "seqID" (some (.integer n))) e).result with
        ⟨⟨h', e₁⟩, ⟨T', e₁'⟩, hy, hb, rfl, hrep'⟩ | ⟨y, hy, hb⟩
      · obtain ⟨cs, rfl, hle⟩ := hspent _ hb
        change cs.length + budget e₁ ≤ budget e at hle
        rw [Traced.bind_ok hy]
        refine ih (T.bindAll cs) h' e₁ hrep' fun t' => ?_
        have hlt := hfuel t'
        have hlength := List.length_filterMap_le (BindCall.handlerFor t') cs
        rw [Table.itemsOf_bindAll, List.length_append]
        omega
      · rw [Traced.bind_error hy]
        intro hdiv
        obtain rfl := Except.error.inj hdiv
        exact hends hb
    · rw [dispatch_of_not_command hnot]
      exact ih T h e hrep hfuel

/-- **Messages can be dispatched** one after the other if the handlers of those that are commands
have mutators, and the hooks return and bind only so often. -/
theorem dispatchesReturn_of_budget {hooks : BindingHooks (Option Json) ω} (hops : hooks.BindOps)
    {budget : ω → ℕ} (hbudget : hooks.Budgeted budget) {cs : List BindCall} {h : Heap}
    (hall : Heap.booted.bindAll cs = .ok h) {messages : List Json}
    (hcommands : ∀ message ∈ messages, ∀ target verb seqID,
      IsCommand message target verb seqID → ∀ c ∈ boundTo cs target verb, c.binding.op ≠ none)
    (e : ω) : DispatchesReturn hooks.onHeap messages (h, e) := by
  obtain ⟨h', hall', hrep⟩ := bindAll_booted cs
  obtain rfl := Except.ok.inj (hall.symm.trans hall')
  have hhave : CommandsHaveOps messages (Table.init.bindAll cs) := by
    intro message hmem t v n hcommand
    exact hasOps_bindAll_init.mpr (hcommands message hmem t v n hcommand)
  have hends := dispatchAll_ends hbudget (cs.length + budget e + 1) messages _ h e hrep fun t => by
    rw [Table.itemsOf_bindAll, Table.itemsOf_init, List.nil_append]
    exact Nat.lt_succ_of_le (Nat.add_le_add_right (List.length_filterMap_le _ cs) _)
  rcases hres : (dispatchAll hooks.onHeap (cs.length + budget e + 1) messages (h, e)).result with
    x | s'
  · obtain rfl := dispatchAll_of_haveOps hops _ messages _ h e hrep hhave x hres
    exact absurd hres hends
  · exact ⟨_, s', hres⟩

/-- Without a mutator, a command ends in a call of `NULL`, if the hooks do nothing. -/
lemma dispatchAll_null {fuel : ℕ} {T : Table}
    (hfuel : ∀ t, (Registry.itemsOf T t).length < fuel) (messages : List Json) :
    ∀ (h : Heap), h.Represents T → ¬ CommandsHaveOps messages T →
      (dispatchAll BindingHooks.idle.onHeap fuel messages (h, ())).result = .error .nullCall := by
  induction messages with
  | nil => exact fun h _ hnot => absurd (fun _ hmem => absurd hmem (by simp)) hnot
  | cons message messages ih =>
    intro h hrep hnot
    have hrest : (∀ t v n, IsCommand message t v n → T.HasOps t v) →
        ¬ CommandsHaveOps messages T := by
      intro hfirst hall
      refine hnot fun message' hmem t v n hcommand => ?_
      rcases List.mem_cons.mp hmem with rfl | hmem
      · exact hfirst t v n hcommand
      · exact hall message' hmem t v n hcommand
    rw [dispatchAll]
    rcases command_or_not message with ⟨t, v, n, hcommand⟩ | hother
    · rw [dispatch_command hcommand]
      have hsim := dispatch_table_execute_sim BindingHooks.idle hrep fuel t v (json_object_set
        (json_object_get (some message) "args") "seqID" (some (.integer n))) ()
      by_cases hops : T.HasOps t v
      · -- this command runs, and leaves the table as it is
        obtain ⟨-, hres⟩ := execute_quiet BindingHooks.idle_quiet t v (json_object_set
          (json_object_get (some message) "args") "seqID" (some (.integer n))) T () (hfuel t)
        obtain ⟨e', hok⟩ := hres hops
        rcases hsim.result with ⟨⟨h', e₁⟩, b, hy, hb, -, hrep'⟩ | ⟨y, -, hb⟩
        · rw [hb] at hok
          obtain rfl := Except.ok.inj hok
          rw [Traced.bind_ok hy]
          refine ih h' hrep' (hrest fun t' v' n' hcommand' => ?_)
          -- a message is a command in one way
          have ht := hcommand.target.symm.trans hcommand'.target
          have hv := hcommand.command.symm.trans hcommand'.command
          simp only [Option.some.injEq, Json.string.injEq] at ht hv
          exact ht ▸ hv ▸ hops
        · rw [hb] at hok
          exact absurd hok (by simp)
      · have hnull := execute_null BindingHooks.idle_quiet hops (json_object_set
          (json_object_get (some message) "args") "seqID" (some (.integer n))) () (hfuel t)
        rcases hsim.result with ⟨a, b, -, hb, -⟩ | ⟨y, hy, hb⟩
        · rw [hb] at hnull
          exact absurd hnull (by simp)
        · rw [hb] at hnull
          obtain rfl := Except.error.inj hnull
          rw [Traced.bind_error hy]
    · rw [dispatch_of_not_command hother]
      exact ih h hrep (hrest fun t v n hcommand => absurd hcommand (hother t v n))

/-- No call through `NULL` and no access through it: after the history of bindings, for hooks
that return and whose own bindings have mutators, whatever waits in the in-queue. -/
def NeverNull (cs : List BindCall) (m : Rings Json) : Prop :=
  ∀ (ω : Type) (hooks : BindingHooks (Option Json) ω) (fuel : ℕ) (h : Heap) (e : ω),
    hooks.BindOps → Heap.booted.bindAll cs = .ok h →
    (headcrab_handle_commands hooks.onHeap fuel m (h, e)).result ≠ .error .nullCall ∧
      (headcrab_handle_commands hooks.onHeap fuel m (h, e)).result ≠ .error .nullDeref

/-- Every binding of a target and verb that some message is a command for has a mutator. -/
def OpsBound (cs : List BindCall) (m : Rings Json) : Prop :=
  ∀ message ∈ handled m, ∀ target verb seqID, IsCommand message target verb seqID →
    ∀ c ∈ boundTo cs target verb, c.binding.op ≠ none

lemma opsBound_iff (cs : List BindCall) (m : Rings Json) :
    OpsBound cs m ↔ CommandsHaveOps (handled m) (Table.init.bindAll cs) := by
  simp only [OpsBound, CommandsHaveOps, hasOps_bindAll_init]

lemma BindingHooks.idle_bindOps {A : Type} : (BindingHooks.idle (A := A)).BindOps := by
  constructor <;> simp [BindingHooks.idle]

/-- **When no client can make the library call `NULL`.**  Exactly when the commands that wait
are for bindings that have mutators. -/
theorem never_null_iff (cs : List BindCall) (m : Rings Json) :
    NeverNull cs m ↔ OpsBound cs m := by
  obtain ⟨h, hall, hrep⟩ := bindAll_booted cs
  rw [opsBound_iff]
  constructor
  · intro hnever
    by_contra hnot
    refine (hnever Unit BindingHooks.idle (cs.length + 1) h () BindingHooks.idle_bindOps hall).1 ?_
    rw [handle_commands_error]
    refine dispatchAll_null (fun t => ?_) (handled m) h hrep hnot
    rw [Table.itemsOf_bindAll, Table.itemsOf_init, List.nil_append]
    exact Nat.lt_succ_of_le (List.length_filterMap_le _ cs)
  · intro hops ω hooks fuel h' e hbind hall'
    obtain rfl : h = h' := Except.ok.inj (hall.symm.trans hall')
    have hdiv := dispatchAll_of_haveOps hbind fuel (handled m) _ h e hrep hops
    simp only [ne_eq, handle_commands_error]
    exact ⟨fun hx => absurd (hdiv _ hx) (by simp), fun hx => absurd (hdiv _ hx) (by simp)⟩

/-- The binding of `pause` in the example of the boids. -/
def pause : BindCall := ⟨none, "flock", some "pause", ⟨some 10, none, none, none, none⟩⟩

/-- The command that a page sends to pause the boids. -/
def pauseCommand : Json :=
  .object [("type", .string "command"), ("target", .string "flock"), ("command", .string "pause"),
    ("seqID", .integer 0)]

/-- Pausing the boids calls `NULL`. -/
theorem pause_calls_null :
    ¬ NeverNull [pause] (receiveAll some (fun _ => Ring.init Json) [pauseCommand]) := by
  intro hnever
  exact (hnever Unit BindingHooks.idle 2 _ () BindingHooks.idle_bindOps rfl).1 rfl

end Headcrab
