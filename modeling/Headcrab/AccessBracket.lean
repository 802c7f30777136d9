/-
# The access bracket

A pre-op function is called before an object is accessed and a post-op function after it, so
that a host program can take a lock and give it back.  A pre-op function says by its result
whether it succeeded, but `dispatch_table_execute` drops the result, and calls the mutator
after a pre-op function that failed.

What a call of `headcrab_handle_commands` shows is a sequence of access brackets, one for
each handler of each command, if every pre-op function that it calls succeeds, and if it
returns, only then (`access_bracket_iff`).
-/
import Headcrab.Lib.Blocks
import Headcrab.Reentrancy
import Headcrab.Requests

namespace Headcrab

open Json

variable {A ω : Type}

/-! ## The bracket of a handler -/

/-- The access bracket of a handler.  The mutator is called on the object only after the
handler's own pre-op function, if it has one, has succeeded, and is followed by the post-op
function; if the pre-op function fails, neither of them is called. -/
inductive Bracket (object : VoidPtr) (args : A) (c : Handler) : List (HookEvent A) → Prop
  | granted (r : HEADCRAB_ERROR) : Bracket object args c (handlerTrace object args c .HC_SUCCESS r)
  | refused {f : Fn} {r : HEADCRAB_ERROR} : c.binding.preOp = some f → r ≠ .HC_SUCCESS →
      Bracket object args c [.pre f c.binding.preOpArgs, .returned r]

/-- What the pre-op functions in a trace returned. -/
def preResults : List (HookEvent A) → List HEADCRAB_ERROR
  | .pre _ _ :: .returned r :: tr => r :: preResults tr
  | _ :: tr => preResults tr
  | [] => []

/-- Every pre-op function in a trace succeeded. -/
def Succeed (tr : List (HookEvent A)) : Prop := ∀ r ∈ preResults tr, r = .HC_SUCCESS

/-- The mutators that a trace calls. -/
def opCount (tr : List (HookEvent A)) : ℕ := (opCalls tr).length

@[simp] lemma opCount_nil : opCount ([] : List (HookEvent A)) = 0 := rfl

@[simp] lemma opCount_append (tr tr' : List (HookEvent A)) :
    opCount (tr ++ tr') = opCount tr + opCount tr' := by
  rw [opCount, opCalls_append, List.length_append]
  rfl

section Handler

variable (o : VoidPtr) (args : A) (c : Handler) (r r' : HEADCRAB_ERROR)

lemma preResults_shown_pre (tr : List (HookEvent A)) (f : Option Fn) (a : VoidPtr) :
    preResults (shown .pre f a r ++ tr) = (f.map fun _ => r).toList ++ preResults tr := by
  rcases f with _ | f <;> rfl

lemma preResults_handlerTrace (tr : List (HookEvent A)) :
    preResults (handlerTrace o args c r r' ++ tr)
      = (c.binding.preOp.map fun _ => r).toList ++ preResults tr := by
  rw [handlerTrace, List.append_assoc, List.append_assoc, preResults_shown_pre]
  rcases hop : c.binding.op with _ | f <;> rcases hpost : c.binding.postOp with _ | g <;> rfl

lemma opCount_handlerTrace : opCount (handlerTrace o args c r r')
    = (c.binding.op.map fun _ => 1).getD 0 := by
  have hpre : opCount (shown (A := A) .pre c.binding.preOp c.binding.preOpArgs r) = 0 := by
    rcases c.binding.preOp with _ | f <;> rfl
  have hpost : opCount (shown (A := A) .post c.binding.postOp c.binding.postOpArgs r') = 0 := by
    rcases c.binding.postOp with _ | f <;> rfl
  rw [handlerTrace, opCount_append, opCount_append, hpre, hpost]
  rcases c.binding.op with _ | f <;> rfl

end Handler

/-- A handler that ran after its pre-op function had succeeded made its bracket. -/
lemma Ran.bracket {o : VoidPtr} {args : A} {c : Handler} {tr tr' : List (HookEvent A)}
    (h : Ran o args c tr) (hpre : Succeed (tr ++ tr')) : Bracket o args c tr ∧ Succeed tr' := by
  obtain ⟨-, r, r', rfl⟩ := h
  rw [Succeed, preResults_handlerTrace] at hpre
  refine ⟨?_, fun r hr => hpre r (List.mem_append_right _ hr)⟩
  have hgranted : Bracket o args c (handlerTrace o args c .HC_SUCCESS r') := .granted r'
  rcases hp : c.binding.preOp with _ | p
  · -- without a pre-op function there is no result
    rw [handlerTrace, hp] at hgranted ⊢
    exact hgranted
  · rw [hp] at hpre
    obtain rfl : r = .HC_SUCCESS := hpre r (by simp)
    exact hgranted

/-! ## The brackets of a dispatch -/

section Dispatch

variable {o : VoidPtr} {args : A} {cs : List Handler} {tr : List (HookEvent A)} {x : Option Fault}

/-- A walk whose pre-op functions succeed makes the brackets of its handlers, up to where it
ends. -/
lemma Walked.brackets (h : Walked o args cs tr x) (hpre : Succeed tr) :
    ∃ more, Blocks (Bracket o args) cs (tr ++ more) ∧ (x = none → more = []) := by
  have hgranted : ∀ c, ∃ b, Bracket o args c b := fun c => ⟨_, .granted .HC_SUCCESS⟩
  induction h with
  | all => exact ⟨[], .nil, fun _ => rfl⟩
  | out cs =>
    obtain ⟨more, hmore⟩ := Blocks.exists_of_forall hgranted cs
    exact ⟨more, hmore, fun h => absurd h (by simp)⟩
  | @null c cs r hop =>
    -- the bracket of the handler would go on with its post-op function
    obtain ⟨more, hmore⟩ := Blocks.exists_of_forall hgranted cs
    have hbracket : Bracket o args c (handlerTrace o args c .HC_SUCCESS .HC_SUCCESS) := .granted _
    have hshown : shown .pre c.binding.preOp c.binding.preOpArgs r
        = shown (A := A) .pre c.binding.preOp c.binding.preOpArgs .HC_SUCCESS := by
      rcases hp : c.binding.preOp with _ | p
      · rfl
      · rw [hp] at hpre
        rw [hpre r (by simp [shown, preResults])]
    rw [handlerTrace, hop, Option.map_none, Option.toList_none, List.append_nil, ← hshown]
      at hbracket
    refine ⟨shown .post c.binding.postOp c.binding.postOpArgs .HC_SUCCESS ++ more, ?_,
      fun h => absurd h (by simp)⟩
    rw [← List.append_assoc]
    exact .cons hbracket hmore
  | @next c cs tr tr' x hran hwalked ih =>
    obtain ⟨hbracket, hrest⟩ := hran.bracket hpre
    obtain ⟨more, hmore, hnone⟩ := ih hrest
    refine ⟨more, ?_, hnone⟩
    rw [List.append_assoc]
    exact .cons hbracket hmore

/-- Brackets call a mutator for each handler only if every pre-op function succeeded. -/
lemma brackets_opCount (h : Blocks (Bracket o args) cs tr) :
    opCount tr ≤ cs.length ∧ (cs.length ≤ opCount tr → Succeed tr) := by
  induction h with
  | nil => exact ⟨le_rfl, fun _ => by simp [Succeed, preResults]⟩
  | @cons c cs b tr hb hblocks ih =>
    obtain ⟨hle, hsucceed⟩ := ih
    rw [opCount_append, List.length_cons]
    cases hb with
    | granted r =>
      have hone : opCount (handlerTrace o args c .HC_SUCCESS r) ≤ 1 := by
        rw [opCount_handlerTrace]
        cases c.binding.op <;> simp
      refine ⟨by omega, fun hcount => ?_⟩
      rw [Succeed, preResults_handlerTrace]
      intro r' hr'
      rcases List.mem_append.mp hr' with hr' | hr'
      · cases hp : c.binding.preOp <;> simp_all
      · exact hsucceed (by omega) r' hr'
    | @refused f r hp hr =>
      have hzero : opCount [HookEvent.pre (A := A) f c.binding.preOpArgs, .returned r] = 0 := rfl
      exact ⟨by omega, fun hcount => by omega⟩

/-- A walk that ends calls the mutator of every handler. -/
lemma Walked.opCount_eq (h : Walked o args cs tr none) : opCount tr = cs.length := by
  generalize hx : (none : Option Fault) = x at h
  induction h with
  | all => rfl
  | out cs => exact absurd hx (by simp)
  | null cs r hop => exact absurd hx (by simp)
  | @next c cs tr tr' x hran hwalked ih =>
    obtain ⟨hop, r, r', rfl⟩ := hran
    obtain ⟨f, hf⟩ := Option.ne_none_iff_exists'.mp hop
    rw [opCount_append, opCount_handlerTrace, hf, ih hx, List.length_cons, Nat.add_comm]
    rfl

/-- In a walk that ends, the brackets are those of pre-op functions that succeeded. -/
lemma Walked.succeed {args' : A} (h : Walked o args cs tr none)
    (hb : Blocks (Bracket o args') cs tr) : Succeed tr :=
  (brackets_opCount hb).2 h.opCount_eq.ge

end Dispatch

/-! ## The brackets of several commands -/

/-- The calls that a trace of commands shows before the next message. -/
def leading : List CommandEvent → List (HookEvent (Option Json))
  | .hook e :: tr => e :: leading tr
  | _ => []

/-- The messages of a trace of commands, each with the calls that it led to. -/
def perMessage : List CommandEvent → List (Json × List (HookEvent (Option Json)))
  | [] => []
  | .hook _ :: tr => perMessage tr
  | .dispatch message :: tr => (message, leading tr) :: perMessage tr

/-- What a message leads to.  A command leads to the access brackets of the handlers of its
target and verb that are bound when it is done, one for each and in the order of the bindings,
on the object that the target has at first; any other message leads to nothing.  If the
message is not done, its brackets are cut off somewhere. -/
def MessageBrackets (cs cs' : List BindCall) (done : Prop) (message : Json)
    (tr : List (HookEvent (Option Json))) : Prop :=
  (∀ t v n, IsCommand message t v n →
    ∃ args more, Numbered n (json_object_get (some message) "args") args ∧
      Blocks (Bracket (boundObject cs t) args) ((boundTo cs' t v).map (handlerOf v)) (tr ++ more) ∧
      (done → more = [])) ∧
  ((∀ t v n, ¬ IsCommand message t v n) → tr = [])

/-- What several messages lead to, of which each is done when the next one is taken up, and
the last one if the whole returns. -/
def Brackets (hooks : BindingHooks (Option Json) ω) (returns : Prop) :
    List BindCall → ω → List (Json × List (HookEvent (Option Json))) → Prop
  | _, _, [] => True
  | cs, e, (message, tr) :: rest =>
    MessageBrackets cs (cs ++ (hooks.replay tr e).1) (rest ≠ [] ∨ returns) message tr ∧
      Brackets hooks returns (cs ++ (hooks.replay tr e).1) (hooks.replay tr e).2 rest

lemma leading_hooks (tr : List (HookEvent (Option Json))) (tr' : List CommandEvent) :
    leading (tr.map .hook ++ tr') = tr ++ leading tr' := by
  induction tr with
  | nil => rfl
  | cons e tr ih => rw [List.map_cons, List.cons_append, leading, ih, List.cons_append]

lemma perMessage_hooks (tr : List (HookEvent (Option Json))) (tr' : List CommandEvent) :
    perMessage (tr.map .hook ++ tr') = perMessage tr' := by
  induction tr with
  | nil => rfl
  | cons e tr ih => rw [List.map_cons, List.cons_append, perMessage, ih]

lemma perMessage_dispatch (message : Json) (tr : List (HookEvent (Option Json)))
    {tr' : List CommandEvent} (h : leading tr' = []) :
    perMessage (.dispatch message :: (tr.map .hook ++ tr')) = (message, tr) :: perMessage tr' := by
  rw [perMessage, leading_hooks, perMessage_hooks, h, List.append_nil]

section Handling

variable (hooks : BindingHooks (Option Json) ω) (fuel : ℕ)

/-- Nothing is called in front of the first message. -/
lemma leading_handleFrom (n : ℕ) (m : Rings Json) (s : Heap × ω) :
    leading (handleFrom hooks.onHeap fuel n (m, s)).trace = [] := by
  rcases n with _ | n
  · rfl
  · rw [handleFrom]
    rcases (m.pop .MQ_IN) with ⟨_ | command, m'⟩ <;> rfl

/-- What the dispatch of a message leaves in memory. -/
lemma dispatch_replays (message : Json) (s : Heap × ω) :
    Replays hooks s (dispatch hooks.onHeap fuel message s) := by
  rcases command_or_not message with ⟨t, v, n, hcommand⟩ | hnot
  · rw [dispatch_command hcommand]
    exact dispatch_table_execute_replays hooks _ _ _ _ s
  · rw [dispatch_of_not_command hnot]
    exact Replays.pure s

/-- What `handleFrom` does with the next message. -/
lemma handleFrom_cases (n : ℕ) (m : Rings Json) (s : Heap × ω) :
    (handleFrom hooks.onHeap fuel (n + 1) (m, s)).trace = [] ∨
    (∃ message x, (dispatch hooks.onHeap fuel message s).result = .error x ∧
      handleFrom hooks.onHeap fuel (n + 1) (m, s)
        = ⟨.dispatch message :: ((dispatch hooks.onHeap fuel message s).trace.map .hook ++ []),
          .error x⟩) ∨
    ∃ message s' m', (dispatch hooks.onHeap fuel message s).result = .ok s' ∧
      handleFrom hooks.onHeap fuel (n + 1) (m, s)
        = ⟨.dispatch message :: ((dispatch hooks.onHeap fuel message s).trace.map .hook
            ++ (handleFrom hooks.onHeap fuel n (m', s')).trace),
          (handleFrom hooks.onHeap fuel n (m', s')).result⟩ := by
  rw [handleFrom]
  rcases (m.pop .MQ_IN) with ⟨_ | message, m'⟩
  · exact Or.inl rfl
  · rcases hd : (dispatch hooks.onHeap fuel message s).result with x | s'
    · refine Or.inr (Or.inl ⟨message, x, hd, ?_⟩)
      have hmap : ((dispatch hooks.onHeap fuel message s).mapTrace CommandEvent.hook).result
          = .error x := hd
      rw [List.append_nil]
      simp only [Traced.emit_bind, Traced.bind_error hmap]
      rfl
    · refine Or.inr (Or.inr ⟨message, s', m', hd, ?_⟩)
      have hmap : ((dispatch hooks.onHeap fuel message s).mapTrace CommandEvent.hook).result
          = .ok s' := hd
      simp only [Traced.emit_bind, Traced.bind_ok hmap]
      rfl

section Booted

variable {hooks fuel} {cs : List BindCall} {h : Heap} (hcs : Heap.booted.bindAll cs = .ok h)
  {message : Json} {e : ω} {d : Traced (HookEvent (Option Json)) Fault (Heap × ω)}
  (hd : dispatch hooks.onHeap fuel message (h, e) = d)

include hcs hd

/-- The dispatch of a message whose pre-op functions succeed. -/
lemma dispatch_brackets (hpre : Succeed d.trace) :
    MessageBrackets cs (cs ++ (hooks.replay d.trace e).1) (d.failure = none) message d.trace := by
  subst hd
  refine ⟨fun t v n hcommand => ?_, fun hnot => ?_⟩
  · rw [dispatch_command hcommand] at hpre ⊢
    obtain ⟨hwalked, -⟩ := dispatch_table_execute_walked hooks hcs t v _ e fuel _ rfl _ rfl
    obtain ⟨more, hmore, hdone⟩ := hwalked.brackets hpre
    exact ⟨_, more, numbered_json_object_set n _, hmore, hdone⟩
  · rw [dispatch_of_not_command hnot]
    rfl

/-- The dispatch of a message that is done shows brackets only if its pre-op functions
succeed. -/
lemma dispatch_succeed (hdone : d.failure = none)
    (hb : MessageBrackets cs (cs ++ (hooks.replay d.trace e).1) True message d.trace) :
    Succeed d.trace := by
  subst hd
  rcases command_or_not message with ⟨t, v, n, hcommand⟩ | hnot
  · obtain ⟨args, more, -, hmore, hnil⟩ := hb.1 t v n hcommand
    rw [hnil trivial, List.append_nil] at hmore
    rw [dispatch_command hcommand] at hdone hmore ⊢
    obtain ⟨hwalked, -⟩ := dispatch_table_execute_walked hooks hcs t v _ e fuel _ rfl _ rfl
    rw [hdone] at hwalked
    exact hwalked.succeed hmore
  · rw [hb.2 hnot]
    intro r hr
    exact absurd hr (by simp [preResults])

/-- What a dispatch leaves to the next one. -/
lemma bindAll_of_dispatch {s' : Heap × ω} (hok : d.result = .ok s') :
    Heap.booted.bindAll (cs ++ (hooks.replay d.trace e).1) = .ok s'.1 ∧
      (hooks.replay d.trace e).2 = s'.2 := by
  subst hd
  obtain ⟨hheap, hhost⟩ := dispatch_replays hooks fuel message (h, e) s' hok
  exact ⟨(Heap.bindAll_append hcs _).trans hheap, hhost⟩

end Booted

lemma MessageBrackets.of_iff {cs cs' : List BindCall} {done done' : Prop} {message : Json}
    {tr : List (HookEvent (Option Json))} (h : MessageBrackets cs cs' done message tr)
    (hdone : done' → done) : MessageBrackets cs cs' done' message tr := by
  refine ⟨fun t v n hcommand => ?_, h.2⟩
  obtain ⟨args, more, hargs, hmore, hnil⟩ := h.1 t v n hcommand
  exact ⟨args, more, hargs, hmore, hnil ∘ hdone⟩

/-- Whatever waits, if every pre-op function that is called succeeds, brackets are shown.
The induction is on the messages. -/
lemma handleFrom_brackets (n : ℕ) : ∀ (m : Rings Json) (cs : List BindCall) (h : Heap) (e : ω),
    Heap.booted.bindAll cs = .ok h →
    ∀ x, handleFrom hooks.onHeap fuel n (m, (h, e)) = x →
      (∀ g ∈ perMessage x.trace, Succeed g.2) →
      Brackets hooks (x.failure = none) cs e (perMessage x.trace) := by
  induction n with
  | zero =>
    rintro m cs h e hcs x rfl -
    exact trivial
  | succ n ih =>
    rintro m cs h e hcs x hx hpre
    rcases handleFrom_cases hooks fuel n m (h, e) with
      htrace | ⟨message, y, hd, hstep⟩ | ⟨message, s', m', hd, hstep⟩
    · rw [← hx, htrace]
      exact trivial
    · -- the message is not done
      have hmessages : perMessage (_ :: (_ ++ [])) = _ := perMessage_dispatch message
        (dispatch hooks.onHeap fuel message (h, e)).trace rfl
      rw [hx] at hstep
      rw [hstep, hmessages] at hpre ⊢
      refine ⟨(dispatch_brackets hcs rfl (hpre _ List.mem_cons_self)).of_iff ?_, trivial⟩
      simp [perMessage, Traced.failure]
    · have hmessages := perMessage_dispatch message
        (dispatch hooks.onHeap fuel message (h, e)).trace (leading_handleFrom hooks fuel n m' s')
      rw [hx] at hstep
      rw [hstep, hmessages] at hpre ⊢
      obtain ⟨hheap, hhost⟩ := bindAll_of_dispatch hcs rfl hd
      refine ⟨(dispatch_brackets hcs rfl (hpre _ List.mem_cons_self)).of_iff
        fun _ => Traced.failure_ok hd, ?_⟩
      rw [hhost]
      exact ih m' _ s'.1 s'.2 hheap _ rfl fun g hg => hpre g (by simp [hg])

/-- If everything returns, brackets are shown only if every pre-op function succeeds. -/
lemma handleFrom_succeed {returns : Prop} (hreturns : returns) (n : ℕ) :
    ∀ (m : Rings Json) (cs : List BindCall) (h : Heap) (e : ω),
    Heap.booted.bindAll cs = .ok h →
    ∀ x, handleFrom hooks.onHeap fuel n (m, (h, e)) = x → x.failure = none →
      Brackets hooks returns cs e (perMessage x.trace) → ∀ g ∈ perMessage x.trace, Succeed g.2 := by
  induction n with
  | zero =>
    rintro m cs h e hcs x rfl hdone - g hg
    exact absurd hg (by simp [handleFrom, perMessage])
  | succ n ih =>
    rintro m cs h e hcs x hx hdone hb g hg
    rcases handleFrom_cases hooks fuel n m (h, e) with
      htrace | ⟨message, y, hd, hstep⟩ | ⟨message, s', m', hd, hstep⟩
    · rw [← hx, htrace] at hg
      exact absurd hg (by simp [perMessage])
    · rw [← hx, hstep] at hdone
      exact absurd hdone (by simp [Traced.failure])
    · have hmessages := perMessage_dispatch message
        (dispatch hooks.onHeap fuel message (h, e)).trace (leading_handleFrom hooks fuel n m' s')
      rw [hx] at hstep
      rw [hstep] at hdone
      rw [hstep, hmessages] at hb hg
      obtain ⟨hmessage, hrest⟩ := hb
      obtain ⟨hheap, hhost⟩ := bindAll_of_dispatch hcs rfl hd
      rcases List.mem_cons.mp hg with rfl | hg
      · exact dispatch_succeed hcs rfl (Traced.failure_ok hd)
          (hmessage.of_iff fun _ => Or.inr hreturns)
      · rw [hhost] at hrest
        exact ih m' _ s'.1 s'.2 hheap _ rfl hdone hrest g hg

end Handling

/-! ## When the bracket holds -/

section

variable (hooks : BindingHooks (Option Json) ω) (cs : List BindCall) (fuel : ℕ) (m : Rings Json)
  (e : ω)

/-- A call of `headcrab_handle_commands`, after a history of bindings. -/
def HandleRun (x : Traced CommandEvent Fault (Rings Json × (Heap × ω))) : Prop :=
  ∃ h, Heap.booted.bindAll cs = .ok h ∧ headcrab_handle_commands hooks.onHeap fuel m (h, e) = x

/-- The call shows a sequence of access brackets. -/
def AccessBracket : Prop :=
  ∀ x, HandleRun hooks cs fuel m e x → Brackets hooks (x.failure = none) cs e (perMessage x.trace)

/-- Every pre-op function that the call calls returns `HC_SUCCESS`. -/
def PreOpsSucceed : Prop :=
  ∀ x, HandleRun hooks cs fuel m e x → ∀ g ∈ perMessage x.trace, Succeed g.2

/-- The call returns. -/
def Returns : Prop := ∀ x, HandleRun hooks cs fuel m e x → x.failure = none

/-- **When the access bracket holds.**  Whatever is bound and whatever waits, the calls of
hooks are a sequence of access brackets if every pre-op function that is called succeeds.  If
`headcrab_handle_commands` returns, they are only then. -/
theorem access_bracket_iff :
    (PreOpsSucceed hooks cs fuel m e → AccessBracket hooks cs fuel m e) ∧
    (Returns hooks cs fuel m e →
      (AccessBracket hooks cs fuel m e ↔ PreOpsSucceed hooks cs fuel m e)) := by
  have henough : PreOpsSucceed hooks cs fuel m e → AccessBracket hooks cs fuel m e := by
    rintro hpre x ⟨h, hcs, hx⟩
    exact handleFrom_brackets hooks fuel _ m cs h e hcs x hx (hpre x ⟨h, hcs, hx⟩)
  refine ⟨henough, fun hreturns => ⟨fun hbracket => ?_, henough⟩⟩
  rintro x ⟨h, hcs, hx⟩
  have hdone := hreturns x ⟨h, hcs, hx⟩
  exact handleFrom_succeed hooks fuel hdone _ m cs h e hcs x hx hdone (hbracket x ⟨h, hcs, hx⟩)

end

theorem getall_brackets : Returns BindingHooks.idle [getall] 2
      (receiveAll some (fun _ => Ring.init Json) [getallCommand 0]) () ∧
    AccessBracket BindingHooks.idle [getall] 2
      (receiveAll some (fun _ => Ring.init Json) [getallCommand 0]) () := by
  have hreturns : Returns BindingHooks.idle [getall] 2
      (receiveAll some (fun _ => Ring.init Json) [getallCommand 0]) () := by
    rintro x ⟨h, hcs, rfl⟩
    obtain rfl := Except.ok.inj hcs
    rfl
  refine ⟨hreturns, ((access_bracket_iff _ _ _ _ _).2 hreturns).mpr ?_⟩
  rintro x ⟨h, hcs, rfl⟩ g hg r hr
  obtain rfl := Except.ok.inj hcs
  obtain rfl := List.mem_singleton.mp hg
  exact List.mem_singleton.mp hr

/-- Hooks of which every pre-op function fails. -/
def BindingHooks.failing : BindingHooks (Option Json) Unit where
  pre _ _ e := (.HC_FAIL, [], e)
  op _ _ _ e := ([], e)
  post _ _ e := (.HC_SUCCESS, [], e)

/-- A mutator is called after its pre-op function failed. -/
theorem failed_preOp_breaks_bracket :
    ¬ AccessBracket BindingHooks.failing [getall] 2
      (receiveAll some (fun _ => Ring.init Json) [getallCommand 0]) () := by
  intro hbracket
  have hrun : HandleRun BindingHooks.failing [getall] 2
      (receiveAll some (fun _ => Ring.init Json) [getallCommand 0]) () _ := ⟨_, rfl, rfl⟩
  have hb := hbracket _ hrun
  have hsucceed := handleFrom_succeed BindingHooks.failing 2 rfl _ _ [getall] _ () rfl _ rfl rfl hb
    (getallCommand 0, _) (List.mem_singleton_self _)
  exact absurd (hsucceed .HC_FAIL (List.mem_singleton_self _)) (by decide)

end Headcrab
