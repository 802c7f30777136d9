/-
# Messages that are released

`dispatch` gives back the reference to a message on one path only, the one on which handlers
run, and it never gives back the reference that it takes to the arguments.  So a message is
released exactly if it is a command whose arguments are missing or not counted, or if it is
not counted itself (`released_iff`).
-/
import Headcrab.References

namespace Headcrab

/-! ## Rules for the hooks -/

open Traced (Ensures FailsWith)

section Hooks

variable {A σ : Type}

/-- Every hook that returns keeps the invariant. -/
structure Keeps (I : σ → Prop) (hooks : Hooks A σ) : Prop where
  pre : ∀ f a s r s', I s → hooks.pre f a s = .ok (r, s') → I s'
  op : ∀ f o a s s', I s → hooks.op f o a s = .ok s' → I s'
  post : ∀ f a s r s', I s → hooks.post f a s = .ok (r, s') → I s'

lemma callIfSet_keeps {I : σ → Prop} (event : Fn → VoidPtr → HookEvent A)
    {run : Fn → VoidPtr → σ → Except Fault (HEADCRAB_ERROR × σ)}
    (hrun : ∀ f a s r s', I s → run f a s = .ok (r, s') → I s') (f : Option Fn) (args : VoidPtr)
    {s : σ} (hs : I s) : Ensures (callIfSet event run f args s) I := by
  rcases f with _ | f
  · exact Ensures.pure hs
  · refine Ensures.bind_of_forall fun _ => Ensures.bind (P := fun x => I x.2) ?_ ?_
    · rintro ⟨r, s'⟩ h
      exact hrun f args s r s' hs h
    · rintro ⟨r, s'⟩ hs'
      exact Ensures.bind_of_forall fun _ => Ensures.pure hs'

variable {ω : Type} {I : Heap × ω → Prop} {hooks : Hooks A (Heap × ω)} (hk : Keeps I hooks)

include hk

lemma runHandler_keeps (node handler : Option Ptr) (args : A) {s : Heap × ω} (hs : I s) :
    Ensures (runHandler hooks node handler args s) I := by
  refine Ensures.bind_of_forall fun c => Ensures.bind (P := I) ?_ fun s₁ hs₁ =>
    Ensures.bind_of_forall fun c₁ => Ensures.bind_of_forall fun n => Ensures.bind (P := I) ?_
      fun s₂ hs₂ => Ensures.bind_of_forall fun c₂ => ?_
  · exact callIfSet_keeps _ hk.pre c.pre c.preArgs hs
  · rcases hop : c₁.op with _ | f
    · exact Ensures.error
    · exact Ensures.bind_of_forall fun _ => Ensures.lift (hk.op f n.object args s₁ · hs₁)
  · exact callIfSet_keeps _ hk.post c₂.post c₂.postArgs hs₂

/-- The walk through the handlers changes nothing itself.  The induction is on the fuel. -/
lemma executeFrom_keeps (node : Option Ptr) (_verb : Option String) (args : A) (fuel : ℕ) :
    ∀ (p : Option Ptr) (s : Heap × ω), I s →
      Ensures (executeFrom hooks node _verb args fuel p s) I := by
  induction fuel with
  | zero => exact fun _ _ _ => Ensures.error
  | succ fuel ih =>
    intro p s hs
    rcases p with _ | p
    · exact Ensures.pure hs
    · refine Ensures.bind_of_forall fun c => Ensures.bind_of_forall fun found => ?_
      cases found with
      | false => exact ih c.next s hs
      | true =>
        exact Ensures.bind (runHandler_keeps hk node (some p) args hs) fun s' hs' =>
          Ensures.bind_of_forall fun c' => ih c'.next s' hs'

lemma dispatch_table_execute_keeps (fuel : ℕ) (_target _verb : Option String) (args : A)
    {s : Heap × ω} (hs : I s) :
    Ensures (dispatch_table_execute hooks fuel _target _verb args s) I := by
  refine Ensures.bind_of_forall fun node => ?_
  rcases node with _ | p
  · exact Ensures.pure hs
  · exact Ensures.bind_of_forall fun n => executeFrom_keeps hk (some p) _verb args fuel _ s hs

end Hooks

section BindingHooks

variable {A ω : Type} (hooks : BindingHooks A ω)

/-- What can go wrong on a table: a mutator that is not there, and a walk that does not end. -/
def TableFault (e : Fault) : Prop := e = .nullCall ∨ e = .diverges

lemma callPre_failsWith (pre : Option Fn) (preArgs : VoidPtr) (s : Table × ω) :
    FailsWith (hooks.onTable.callPre pre preArgs s) TableFault := by
  rcases pre with _ | f
  · exact .ok rfl
  · exact .ok rfl

lemma callPost_failsWith (post : Option Fn) (postArgs : VoidPtr) (s : Table × ω) :
    FailsWith (hooks.onTable.callPost post postArgs s) TableFault := by
  rcases post with _ | f
  · exact .ok rfl
  · exact .ok rfl

lemma callOp_failsWith (op : Option Fn) (object : VoidPtr) (args : A) (s : Table × ω) :
    FailsWith (hooks.onTable.callOp op object args s) TableFault := by
  rcases op with _ | f
  · rintro e ⟨⟩
    exact Or.inl rfl
  · exact .ok rfl

lemma tableExecuteFrom_failsWith (t v : String) (args : A) (fuel : ℕ) :
    ∀ (i : ℕ) (s : Table × ω),
      FailsWith (Table.executeFrom hooks.onTable t v args fuel i s) TableFault := by
  induction fuel with
  | zero =>
    rintro i s e ⟨⟩
    exact Or.inr rfl
  | succ fuel ih =>
    intro i s
    rw [Table.executeFrom]
    split
    · exact .ok rfl
    · split
      · refine FailsWith.bind ?_ fun s' _ => ih (i + 1) s'
        exact (callPre_failsWith hooks _ _ s).bind fun s₁ _ =>
          (callOp_failsWith hooks _ _ args s₁).bind fun s₂ _ => callPost_failsWith hooks _ _ s₂
      · exact ih (i + 1) s

/-- Hooks that only bind leave nothing else that can go wrong in memory. -/
lemma execute_failsWith {cs : List BindCall} {h : Heap} (hall : Heap.booted.bindAll cs = .ok h)
    (fuel : ℕ) (t v : String) (args : A) (e : ω) :
    FailsWith (dispatch_table_execute hooks.onHeap fuel (some t) (some v) args (h, e))
      TableFault := by
  obtain ⟨h', hall', hrep⟩ := bindAll_booted cs
  obtain rfl := Except.ok.inj (hall.symm.trans hall')
  intro f hf
  rcases (dispatch_table_execute_sim hooks hrep fuel t v args e).result with
    ⟨a, b, hx, -, -⟩ | ⟨f', hx, hy⟩
  · exact absurd (hx.symm.trans hf) (by simp)
  · obtain rfl := Except.error.inj (hx.symm.trans hf)
    rw [Table.execute] at hy
    split at hy
    · exact absurd hy (by simp [pure])
    · exact tableExecuteFrom_failsWith hooks t v args fuel 0 _ _ hy

end BindingHooks

namespace JsonHeap

open RefCount (Counted Acyclic Reachable Shrinks)

variable {ω : Type} {held : ω → List ℕ}

/-! ## Hooks that leave the counts as they found them -/

/-- The host program holds the references `held e`.  It may take more of them, and let go of
some, but whoever else holds a reference does not notice; and it makes no cycle. -/
structure Leaves (held : ω → List ℕ) (x x' : JsonHeap × ω) : Prop where
  counted : ∀ N, Counted x.1 (N ++ held x.2) → Counted x'.1 (N ++ held x'.2)
  acyclic : Acyclic x.1 → Acyclic x'.1

lemma Leaves.refl (x : JsonHeap × ω) : Leaves held x x := ⟨fun _ h => h, fun h => h⟩

lemma Leaves.trans {x x' x'' : JsonHeap × ω} (h : Leaves held x x') (h' : Leaves held x' x'') :
    Leaves held x x'' :=
  ⟨fun N hN => h'.counted N (h.counted N hN), fun ha => h'.acyclic (h.acyclic ha)⟩

/-- Hooks that leave the reference counts as they found them, whenever they return. -/
structure Balanced (held : ω → List ℕ)
    (hooks : Hooks (Option JsonPtr) (Heap × (JsonHeap × ω))) : Prop where
  pre : ∀ f a s r s', hooks.pre f a s = .ok (r, s') → Leaves held s.2 s'.2
  op : ∀ f o a s s', hooks.op f o a s = .ok s' → Leaves held s.2 s'.2
  post : ∀ f a s r s', hooks.post f a s = .ok (r, s') → Leaves held s.2 s'.2

lemma Balanced.keeps {hooks : Hooks (Option JsonPtr) (Heap × (JsonHeap × ω))}
    (h : Balanced held hooks) (x : JsonHeap × ω) : Keeps (fun s => Leaves held x s.2) hooks where
  pre f a s r s' hs hrun := hs.trans (h.pre f a s r s' hrun)
  op f o a s s' hs hrun := hs.trans (h.op f o a s s' hrun)
  post f a s r s' hs hrun := hs.trans (h.post f a s r s' hrun)

/-- The message is released: the queue has handed over its reference to it, `R` are all the
other references that are held, and the hooks leave the counts as they found them. -/
structure Released (j : JsonHeap) (R : List ℕ) (message : JsonPtr) : Prop where
  /-- When `dispatch` returns, the counts are those of the references of others, and only what
  can be reached from these is left. -/
  given_back : ∀ {ω : Type} (held : ω → List ℕ)
    (hooks : Hooks (Option JsonPtr) (Heap × (JsonHeap × ω))), Balanced held hooks →
    ∀ (fuel : ℕ) (table : Heap) (e : ω), held e = R →
    Ensures (dispatch hooks fuel (some message) (table, (j, e))) fun s' =>
      Counted s'.2.1 (held s'.2.2) ∧
        ∀ b c, s'.2.1.Live b c → Reachable s'.2.1 (held s'.2.2) b
  /-- `dispatch` runs into no fault of its own: if it does not return, its handlers do not. -/
  fault_of_handlers : ∀ {ω : Type} (held : ω → List ℕ)
    (hooks : Hooks (Option JsonPtr) (Heap × (JsonHeap × ω))), Balanced held hooks →
    ∀ (fuel : ℕ) (table : Heap) (e : ω) (f : Fault), held e = R →
    (dispatch hooks fuel (some message) (table, (j, e))).result = .error f →
    ∃ target verb args j', Counted j' (message.refs ++ R) ∧
      (dispatch_table_execute hooks fuel (some target) (some verb) args (table, (j', e))).result
        = .error f
  /-- Nothing is used after it has been freed, on the table that a history of bindings leaves
  and for hooks that only bind. -/
  not_used_after : ∀ {ω : Type} (held : ω → List ℕ)
    (hooks : BindingHooks (Option JsonPtr) (JsonHeap × ω)), Balanced held hooks.onHeap →
    ∀ (cs : List BindCall) (fuel : ℕ) (table : Heap) (e : ω), held e = R →
    Heap.booted.bindAll cs = .ok table →
    (dispatch hooks.onHeap fuel (some message) (table, (j, e))).result ≠ .error .useAfterFree

/-! ## When a message is released -/

/-- A value without a count of its own, or no value. -/
def uncounted : Option Json → Bool
  | none | some .true | some .false | some .null => true
  | _ => false

variable {j : JsonHeap} {R : List ℕ}

lemma Same.refsOf_eq_nil {p : Option JsonPtr} {v : Option Json} (h : Same j p v) :
    refsOf p = [] ↔ uncounted v = true := by
  rcases h with h | -
  · cases h <;> simp [refsOf, JsonPtr.refs, uncounted]
  · simp [refsOf, uncounted]

/-- A value that is not a command is released if there is nothing to release. -/
lemma released_of_uncounted {q : JsonPtr} {message : Json} (h : Denotes j q message)
    (hv : uncounted (some message) = true) (hcounted : Counted j (q.refs ++ R))
    (hacyclic : Acyclic j) : Released j R q := by
  have hrefs : q.refs = [] := (Same.refsOf_eq_nil (.some h)).mpr hv
  have hobject : j.json_is_object (some q) = .ok false := by
    rw [(Same.tests (.some h)).1]
    cases message <;> simp_all [uncounted, Json.json_is_object]
  have hdispatch : ∀ {ω : Type} (hooks : Hooks (Option JsonPtr) (Heap × (JsonHeap × ω)))
      (fuel : ℕ) (table : Heap) (e : ω),
      dispatch hooks fuel (some q) (table, (j, e)) = pure (table, (j, e)) := by
    intro ω hooks fuel table e
    rw [dispatch]
    simp only [hobject, Traced.liftM_eq, Traced.ofExcept_ok_bind]
    rfl
  rw [hrefs, List.nil_append] at hcounted
  refine ⟨?_, ?_, ?_⟩
  · rintro ω held hooks - fuel table e rfl
    rw [hdispatch]
    exact Ensures.pure ⟨hcounted, fun b c hb => hcounted.reachable hacyclic hb⟩
  · rintro ω held hooks - fuel table e f - hf
    rw [hdispatch] at hf
    exact absurd hf (by simp [pure])
  · rintro ω held hooks - cs fuel table e - -
    rw [hdispatch]
    exact fun h => absurd h (by simp [pure])

/-- A command is released if its arguments are not counted. -/
lemma released_of_command {q : JsonPtr} {message : Json} {target verb : String} {seqID : ℤ}
    (h : Denotes j q message) (hcommand : IsCommand message target verb seqID)
    (hargs : uncounted (Json.json_object_get (some message) "args") = true)
    (hcounted : Counted j (q.refs ++ R)) (hacyclic : Acyclic j) : Released j R q := by
  obtain ⟨args, j₁, hsame, hcounted₁, hshrinks, hdispatch⟩ :=
    dispatch_of_command h hcommand hcounted hacyclic
  have hrefs := hsame.refsOf_eq_nil.mpr hargs
  have hacyclic₁ := hacyclic.shrinks (hshrinks hrefs)
  rw [hrefs, List.nil_append] at hcounted₁
  -- after the handlers, the reference to the message can be given back
  have hgive : ∀ {ω : Type} {held : ω → List ℕ} {e : ω} {x : JsonHeap × ω}, held e = R →
      Leaves held (j₁, e) x → ∃ j₂, x.1.json_decref (some q) = .ok j₂ ∧
        Counted j₂ (held x.2) ∧ Acyclic j₂ := by
    rintro ω held e x rfl hleaves
    obtain ⟨j₂, hdec, hcounted₂, hshrinks₂⟩ :=
      json_decref_spec (p := some q) (hleaves.counted q.refs hcounted₁)
    exact ⟨j₂, hdec, hcounted₂, (hleaves.acyclic hacyclic₁).shrinks hshrinks₂⟩
  have hfaults : ∀ {ω : Type} (held : ω → List ℕ)
      (hooks : Hooks (Option JsonPtr) (Heap × (JsonHeap × ω))), Balanced held hooks →
      ∀ (fuel : ℕ) (table : Heap) (e : ω), held e = R →
      FailsWith (dispatch hooks fuel (some q) (table, (j, e))) fun f =>
        (dispatch_table_execute hooks fuel (some target) (some verb) args
          (table, (j₁, e))).result = .error f := by
    intro ω held hooks hbalanced fuel table e hR
    rw [hdispatch]
    refine FailsWith.bind (fun f hf => hf) fun s hs => ?_
    obtain ⟨j₂, hdec, -, -⟩ := hgive hR (dispatch_table_execute_keeps
      (hbalanced.keeps (j₁, e)) fuel (some target) (some verb) args (Leaves.refl _) s hs)
    rw [hdec, Traced.liftM_eq, Traced.ofExcept_ok_bind]
    exact .ok rfl
  refine ⟨?_, ?_, ?_⟩
  · intro ω held hooks hbalanced fuel table e hR
    rw [hdispatch]
    refine Ensures.bind (dispatch_table_execute_keeps (hbalanced.keeps (j₁, e)) fuel (some target)
      (some verb) args (Leaves.refl _)) fun s hs => ?_
    obtain ⟨j₂, hdec, hcounted₂, hacyclic₂⟩ := hgive hR hs
    rw [hdec, Traced.liftM_eq, Traced.ofExcept_ok_bind]
    exact Ensures.pure ⟨hcounted₂, fun b c hb => hcounted₂.reachable hacyclic₂ hb⟩
  · intro ω held hooks hbalanced fuel table e f hR hf
    exact ⟨target, verb, args, j₁, hcounted₁, hfaults held hooks hbalanced fuel table e hR f hf⟩
  · intro ω held hooks hbalanced cs fuel table e hR hall hresult
    -- what goes wrong on a table is something else
    rcases execute_failsWith hooks hall fuel target verb args (j₁, e) _
      (hfaults held hooks.onHeap hbalanced fuel table e hR _ hresult) with h | h
    · exact absurd h (by simp)
    · exact absurd h (by simp)

/-- Functions of a host program that do nothing at all. -/
def idleHooks : Hooks (Option JsonPtr) (Heap × (JsonHeap × Unit)) where
  pre _ _ s := .ok (.HC_SUCCESS, s)
  op _ _ _ s := .ok s
  post _ _ s := .ok (.HC_SUCCESS, s)

lemma idleHooks_balanced (held : Unit → List ℕ) : Balanced held idleHooks where
  pre := by
    rintro f a s r s' ⟨⟩
    exact Leaves.refl _
  op := by
    rintro f o a s s' ⟨⟩
    exact Leaves.refl _
  post := by
    rintro f a s r s' ⟨⟩
    exact Leaves.refl _

/-- Nothing is bound when the library has just been started. -/
lemma execute_booted (t v : String) (args : Option JsonPtr) (x : JsonHeap × Unit) :
    dispatch_table_execute idleHooks 1 (some t) (some v) args (Heap.booted, x)
      = pure (Heap.booted, x) := by
  have hnode := rep_booted.find_node t
  rw [dispatch_table_execute, hnode, Traced.liftM_eq, Traced.ofExcept_ok_bind]
  by_cases ht : t = ""
  · subst ht
    rfl
  · have hnone : nodeOf [rootAt] t = none := by simp [nodeOf, rootAt, Ne.symm ht]
    rw [hnone]
    rfl

/-- References that are left over when nothing is bound. -/
lemma not_released_of_leftOver {q : JsonPtr} {j' : JsonHeap} {N : List ℕ}
    (h : (dispatch idleHooks 1 (some q) (.booted, (j, ()))).result = .ok (.booted, (j', ())))
    (hcounted : Counted j' (N ++ R)) (hN : N ≠ []) : ¬ Released j R q := by
  intro hreleased
  obtain ⟨hleft, -⟩ := hreleased.given_back (fun _ => R) idleHooks (idleHooks_balanced _) 1 .booted
    () rfl _ h
  exact hN (hcounted.eq_nil hleft)

/-- What has a count and is not a command stays. -/
lemma not_released_of_not_command {q : JsonPtr} {message : Json} (h : Denotes j q message)
    (hv : uncounted (some message) = false)
    (hnot : ∀ target verb seqID, ¬ IsCommand message target verb seqID)
    (hcounted : Counted j (q.refs ++ R)) : ¬ Released j R q := by
  have hrefs : q.refs ≠ [] := fun hnil =>
    absurd ((Same.refsOf_eq_nil (.some h)).mp hnil) (by simp [hv])
  cases q with
  | the_true | the_false | the_null => exact absurd rfl hrefs
  | cell b =>
    obtain ⟨j', N, hcounted', hdispatch⟩ := dispatch_of_not_command h hnot hcounted
    refine not_released_of_leftOver (N := N ++ [b]) (by rw [hdispatch]; rfl) ?_ (by simp)
    rw [List.append_assoc]
    exact hcounted'

/-- A command leaves its arguments behind if they have a count. -/
lemma not_released_of_command {q : JsonPtr} {message : Json} {target verb : String} {seqID : ℤ}
    (h : Denotes j q message) (hcommand : IsCommand message target verb seqID)
    (hargs : uncounted (Json.json_object_get (some message) "args") = false)
    (hcounted : Counted j (q.refs ++ R)) (hacyclic : Acyclic j) : ¬ Released j R q := by
  obtain ⟨args, j₁, hsame, hcounted₁, -, hdispatch⟩ :=
    dispatch_of_command h hcommand hcounted hacyclic
  have hrefs : refsOf args ≠ [] := fun hnil =>
    absurd (hsame.refsOf_eq_nil.mp hnil) (by simp [hargs])
  have hswap : Counted j₁ (refsOf (some q) ++ (refsOf args ++ R)) := by
    refine hcounted₁.congr fun x => ?_
    simp only [List.count_append, refsOf, Option.elim_some]
    omega
  obtain ⟨j₂, hdec, hcounted₂, -⟩ := json_decref_spec hswap
  refine not_released_of_leftOver ?_ hcounted₂ hrefs
  rw [hdispatch, execute_booted, pure_bind, hdec, Traced.liftM_eq, Traced.ofExcept_ok_bind]
  rfl

/-- **When a message is released.**  Exactly if it has no count, or is a command whose
arguments are missing or have no count. -/
theorem released_iff {q : JsonPtr} {message : Json} (h : Denotes j q message)
    (hcounted : Counted j (q.refs ++ R)) (hacyclic : Acyclic j) :
    Released j R q ↔ uncounted (some message) = true ∨
      (∃ target verb seqID, IsCommand message target verb seqID) ∧
        uncounted (Json.json_object_get (some message) "args") = true := by
  constructor
  · intro hreleased
    rcases hv : uncounted (some message) with _ | _
    swap
    · exact Or.inl rfl
    refine Or.inr ?_
    rcases command_or_not message with ⟨t, v, n, hcommand⟩ | hnot
    · refine ⟨⟨t, v, n, hcommand⟩, ?_⟩
      by_contra hargs
      exact not_released_of_command h hcommand (by simpa using hargs) hcounted hacyclic hreleased
    · exact absurd hreleased (not_released_of_not_command h hv hnot hcounted)
  · rintro (hv | ⟨⟨t, v, n, hcommand⟩, hargs⟩)
    · exact released_of_uncounted h hv hcounted hacyclic
    · exact released_of_command h hcommand hargs hcounted hacyclic

/-- The cells of a command to pause the boids, with or without arguments in the block 5. -/
def pauseCells (args : List (String × JsonPtr)) (cells : List (Option (RcCell JsonValue))) :
    JsonHeap :=
  ⟨[some ⟨1, .object ([("type", .cell 1), ("target", .cell 2), ("command", .cell 3),
      ("seqID", .cell 4)] ++ args)⟩,
    some ⟨1, .string "command"⟩, some ⟨1, .string "flock"⟩, some ⟨1, .string "pause"⟩,
    some ⟨1, .integer 0⟩] ++ cells⟩

/-- The same command as a value. -/
def pauseValue (args : List (String × Json)) : Json :=
  .object ([("type", .string "command"), ("target", .string "flock"),
    ("command", .string "pause"), ("seqID", .integer 0)] ++ args)

lemma isCommand_pauseValue (args : List (String × Json)) :
    IsCommand (pauseValue args) "flock" "pause" 0 := by
  constructor <;> rfl

lemma denotes_pause {args : List (String × JsonPtr)} {cells : List (Option (RcCell JsonValue))}
    {values : List (String × Json)} (hkeys : args.map Prod.fst = values.map Prod.fst)
    (hvalues : List.Forall₂ (Denotes (pauseCells args cells)) (args.map Prod.snd)
      (values.map Prod.snd)) : Denotes (pauseCells args cells) (.cell 0) (pauseValue values) := by
  refine .object (n := 1) rfl ?_ ?_
  · simp [hkeys]
  · exact .cons (.string (n := 1) rfl) (.cons (.string (n := 1) rfl)
      (.cons (.string (n := 1) rfl) (.cons (.integer (n := 1) rfl) hvalues)))

/-- A command without arguments is released. -/
theorem released_pause : Released (pauseCells [] []) [] (.cell 0) :=
  (released_iff (show Denotes _ _ (pauseValue []) from denotes_pause rfl .nil)
    (RefCount.counted_of_forall (by decide) (by decide))
    (RefCount.acyclic_of_forall (fun x => if x = 0 then 1 else 0) (by decide))).mpr
    (Or.inr ⟨⟨_, _, _, isCommand_pauseValue []⟩, rfl⟩)

/-- A command of the kind that a page sends leaves its arguments behind. -/
theorem arguments_not_released :
    let j := pauseCells [("args", .cell 5)] [some ⟨1, .object []⟩]
    (Denotes j (.cell 0) (pauseValue [("args", .object [])]) ∧ Counted j [0] ∧ Acyclic j) ∧
      ¬ Released j [] (.cell 0) := by
  have hdenotes : Denotes (pauseCells [("args", .cell 5)] [some ⟨1, .object []⟩]) (.cell 0)
      (pauseValue [("args", .object [])]) :=
    denotes_pause rfl (.cons (.object (n := 1) rfl rfl .nil) .nil)
  have hcounted : Counted (pauseCells [("args", .cell 5)] [some ⟨1, .object []⟩]) [0] :=
    RefCount.counted_of_forall (by decide) (by decide)
  have hacyclic : Acyclic (pauseCells [("args", .cell 5)] [some ⟨1, .object []⟩]) :=
    RefCount.acyclic_of_forall (fun x => if x = 0 then 1 else 0) (by decide)
  exact ⟨⟨hdenotes, hcounted, hacyclic⟩,
    not_released_of_command (R := []) hdenotes (isCommand_pauseValue _) rfl hcounted hacyclic⟩

end JsonHeap

end Headcrab
