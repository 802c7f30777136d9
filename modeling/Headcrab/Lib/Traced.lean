/-
# Computations that show events and may fault

The events that a computation shows before it fails are part of its outcome: they are what
an observer has seen by then.
-/
import Mathlib.Tactic.Common

/-- The events that a computation shows, in order, and its value or the error that ends it. -/
structure Traced (E ε α : Type) where
  trace : List E
  result : Except ε α

namespace Traced

variable {E ε α β : Type}

instance : Monad (Traced E ε) where
  pure a := ⟨[], .ok a⟩
  bind x f :=
    match x.result with
    | .ok a => ⟨x.trace ++ (f a).trace, (f a).result⟩
    | .error e => ⟨x.trace, .error e⟩

/-- Show one event. -/
def emit (e : E) : Traced E ε Unit := ⟨[e], .ok ()⟩

/-- A computation that shows nothing. -/
def ofExcept (x : Except ε α) : Traced E ε α := ⟨[], x⟩

instance : MonadLift (Except ε) (Traced E ε) := ⟨ofExcept⟩

/-- The computation with its events renamed. -/
def mapTrace {E' : Type} (f : E → E') (x : Traced E ε α) : Traced E' ε α :=
  ⟨x.trace.map f, x.result⟩

@[simp] lemma trace_pure (a : α) : (pure a : Traced E ε α).trace = [] := rfl

@[simp] lemma trace_ofExcept (x : Except ε α) : (ofExcept x : Traced E ε α).trace = [] := rfl

@[simp] lemma liftM_eq (x : Except ε α) : (liftM x : Traced E ε α) = ofExcept x := rfl

lemma bind_ok {x : Traced E ε α} {a : α} (h : x.result = .ok a) (f : α → Traced E ε β) :
    x >>= f = ⟨x.trace ++ (f a).trace, (f a).result⟩ := by
  show (match x.result with | .ok a => _ | .error e => _) = _
  rw [h]

lemma bind_error {x : Traced E ε α} {e : ε} (h : x.result = .error e) (f : α → Traced E ε β) :
    x >>= f = ⟨x.trace, .error e⟩ := by
  show (match x.result with | .ok a => _ | .error e => _) = _
  rw [h]

@[simp] lemma ofExcept_ok_bind (a : α) (f : α → Traced E ε β) :
    (ofExcept (.ok a) : Traced E ε α) >>= f = f a :=
  bind_ok rfl f

@[simp] lemma emit_bind (e : E) (f : Unit → Traced E ε β) :
    (emit e : Traced E ε Unit) >>= f = ⟨e :: (f ()).trace, (f ()).result⟩ :=
  bind_ok rfl f

@[simp] lemma result_pure (a : α) : (pure a : Traced E ε α).result = .ok a := rfl

@[simp] lemma result_emit (e : E) : (emit e : Traced E ε Unit).result = .ok () := rfl

@[simp] lemma result_ofExcept (x : Except ε α) : (ofExcept x : Traced E ε α).result = x := rfl

/-- The results are those of the computation without its events. -/
lemma result_bind (x : Traced E ε α) (f : α → Traced E ε β) :
    (x >>= f).result = x.result >>= fun a => (f a).result := by
  rcases hx : x.result with e | a
  · rw [bind_error hx]
    rfl
  · rw [bind_ok hx]
    rfl

lemma bind_assoc' {γ : Type} (x : Traced E ε α) (f : α → Traced E ε β) (g : β → Traced E ε γ) :
    x >>= f >>= g = x >>= fun a => f a >>= g := by
  rcases hx : x.result with e | a
  · rw [bind_error hx, bind_error hx]
    exact bind_error rfl g
  · rw [bind_ok hx, bind_ok hx]
    rcases hf : (f a).result with e | b
    · rw [bind_error (x := f a) hf]
      exact bind_error rfl g
    · rw [bind_ok (x := f a) hf, ← List.append_assoc]
      exact bind_ok rfl g

instance : LawfulMonad (Traced E ε) :=
  .mk' _ (fun x => by rcases x with ⟨_, _ | _⟩ <;> simp [Functor.map])
    (fun a f => bind_ok rfl f) bind_assoc'

/-! ## What is shown -/

/-- Every event that the computation shows has the property. -/
def Shows (P : E → Prop) (x : Traced E ε α) : Prop := ∀ e ∈ x.trace, P e

lemma Shows.pure {P : E → Prop} (a : α) : Shows P (Pure.pure a : Traced E ε α) := by
  simp [Shows]

lemma Shows.ofExcept {P : E → Prop} (x : Except ε α) :
    Shows P (Traced.ofExcept x : Traced E ε α) := by
  simp [Shows]

lemma Shows.emit {P : E → Prop} {e : E} (h : P e) : Shows P (Traced.emit e : Traced E ε Unit) := by
  intro e' he'
  rw [List.mem_singleton.mp he']
  exact h

lemma Shows.bind {P : E → Prop} {x : Traced E ε α} {f : α → Traced E ε β} (hx : Shows P x)
    (hf : ∀ a, Shows P (f a)) : Shows P (x >>= f) := by
  rcases ha : x.result with e | a
  · rw [bind_error ha]
    exact hx
  · rw [bind_ok ha]
    intro e he
    rcases List.mem_append.mp he with he | he
    · exact hx e he
    · exact hf a e he

/-! ## Postconditions -/

/-- If the computation ends with a value, the value has the property. -/
def Ensures (x : Traced E ε α) (P : α → Prop) : Prop := ∀ a, x.result = .ok a → P a

lemma Ensures.pure {a : α} {P : α → Prop} (h : P a) :
    Ensures (Pure.pure a : Traced E ε α) P := by
  rintro b ⟨⟩
  exact h

lemma Ensures.error {e : ε} {P : α → Prop} :
    Ensures (ofExcept (.error e) : Traced E ε α) P := by
  rintro a ⟨⟩

lemma Ensures.bind {x : Traced E ε α} {f : α → Traced E ε β} {P : α → Prop} {Q : β → Prop}
    (hx : Ensures x P) (hf : ∀ a, P a → Ensures (f a) Q) : Ensures (x >>= f) Q := by
  intro b hb
  rcases ha : x.result with e | a
  · rw [bind_error ha] at hb
    exact absurd hb (by simp)
  · rw [bind_ok ha] at hb
    exact hf a (hx a ha) b hb

lemma Ensures.bind_of_forall {x : Traced E ε α} {f : α → Traced E ε β} {Q : β → Prop}
    (hf : ∀ a, Ensures (f a) Q) : Ensures (x >>= f) Q :=
  Ensures.bind (P := fun _ => True) (fun _ _ => trivial) fun a _ => hf a

lemma Ensures.lift {x : Except ε α} {P : α → Prop} (h : ∀ a, x = .ok a → P a) :
    Ensures (ofExcept x : Traced E ε α) P := h

/-- If the computation ends with an error, the error has the property. -/
def FailsWith (x : Traced E ε α) (P : ε → Prop) : Prop := ∀ e, x.result = .error e → P e

lemma FailsWith.ok {x : Traced E ε α} {P : ε → Prop} {a : α} (h : x.result = .ok a) :
    FailsWith x P := by
  intro e he
  exact absurd (h.symm.trans he) (by simp)

lemma FailsWith.bind {x : Traced E ε α} {f : α → Traced E ε β} {P : ε → Prop}
    (hx : FailsWith x P) (hf : ∀ a, x.result = .ok a → FailsWith (f a) P) :
    FailsWith (x >>= f) P := by
  intro e he
  rcases ha : x.result with e' | a
  · rw [bind_error ha] at he
    exact Except.error.inj he ▸ hx e' ha
  · rw [bind_ok ha] at he
    exact hf a ha e he

/-! ## How a computation ends -/

/-- The error that ends the computation, if it does not end with a value. -/
def failure (x : Traced E ε α) : Option ε :=
  match x.result with
  | .ok _ => none
  | .error e => some e

@[simp] lemma failure_pure (a : α) : (pure a : Traced E ε α).failure = none := rfl

lemma failure_ok {x : Traced E ε α} {a : α} (h : x.result = .ok a) : x.failure = none := by
  rw [failure, h]

lemma failure_error {x : Traced E ε α} {e : ε} (h : x.result = .error e) :
    x.failure = some e := by
  rw [failure, h]

/-- The first computation is the second one, or a beginning of it that the error `e` cuts. -/
def CutBy (e : ε) (x y : Traced E ε α) : Prop :=
  x = y ∨ x.result = .error e ∧ x.trace <+: y.trace

lemma CutBy.refl (e : ε) (x : Traced E ε α) : CutBy e x x := Or.inl rfl

lemma CutBy.bind {e : ε} (x : Traced E ε α) {f g : α → Traced E ε β}
    (h : ∀ a, CutBy e (f a) (g a)) : CutBy e (x >>= f) (x >>= g) := by
  rcases hx : x.result with e' | a
  · rw [bind_error hx, bind_error hx]
    exact .refl e _
  · rw [bind_ok hx, bind_ok hx]
    rcases h a with heq | ⟨herror, hprefix⟩
    · rw [heq]
      exact .refl e _
    · exact Or.inr ⟨herror, (List.prefix_append_right_inj _).mpr hprefix⟩

lemma CutBy.trace {e : ε} {x y : Traced E ε α} (h : CutBy e x y) : x.trace <+: y.trace := by
  rcases h with rfl | ⟨-, hprefix⟩
  · exact List.prefix_rfl
  · exact hprefix

lemma CutBy.eq {e : ε} {x y : Traced E ε α} (h : CutBy e x y) (hx : x.failure ≠ some e) :
    x = y := by
  rcases h with heq | ⟨herror, -⟩
  · exact heq
  · exact absurd (failure_error herror) hx

/-! ## Simulation -/

/-- Two computations show the same events and end in the same way: with related values, or
with the same error. -/
structure Sim {α β : Type} (R : α → β → Prop) (x : Traced E ε α) (y : Traced E ε β) : Prop where
  trace_eq : x.trace = y.trace
  result : (∃ a b, x.result = .ok a ∧ y.result = .ok b ∧ R a b) ∨
    ∃ e, x.result = .error e ∧ y.result = .error e

variable {α' β' : Type} {R : α → α' → Prop} {S : β → β' → Prop}

lemma Sim.pure {a : α} {a' : α'} (h : R a a') :
    Sim R (Pure.pure a : Traced E ε α) (Pure.pure a') :=
  ⟨rfl, Or.inl ⟨a, a', rfl, rfl, h⟩⟩

lemma Sim.error (e : ε) : Sim R (ofExcept (.error e) : Traced E ε α) (ofExcept (.error e)) :=
  ⟨rfl, Or.inr ⟨e, rfl, rfl⟩⟩

lemma Sim.mono {R' : α → α' → Prop} {x : Traced E ε α} {y : Traced E ε α'} (h : Sim R x y)
    (hR : ∀ a a', R a a' → R' a a') : Sim R' x y := by
  rcases h with ⟨ht, ⟨a, a', hx, hy, haa⟩ | ⟨e, hx, hy⟩⟩
  · exact ⟨ht, Or.inl ⟨a, a', hx, hy, hR a a' haa⟩⟩
  · exact ⟨ht, Or.inr ⟨e, hx, hy⟩⟩

/-- Related computations followed by related computations are related. -/
lemma Sim.bind {x : Traced E ε α} {y : Traced E ε α'} {f : α → Traced E ε β}
    {g : α' → Traced E ε β'} (h : Sim R x y) (hfg : ∀ a a', R a a' → Sim S (f a) (g a')) :
    Sim S (x >>= f) (y >>= g) := by
  rcases h with ⟨ht, ⟨a, a', hx, hy, haa⟩ | ⟨e, hx, hy⟩⟩
  · rw [bind_ok hx, bind_ok hy]
    have hnext := hfg a a' haa
    refine ⟨?_, hnext.result⟩
    show x.trace ++ (f a).trace = y.trace ++ (g a').trace
    rw [ht, hnext.trace_eq]
  · rw [bind_error hx, bind_error hy]
    exact ⟨ht, Or.inr ⟨e, rfl, rfl⟩⟩

/-- Related computations end with the same error, or both with a value. -/
lemma Sim.failure_eq {x : Traced E ε α} {y : Traced E ε α'} (h : Sim R x y) :
    x.failure = y.failure := by
  rcases h.result with ⟨a, a', hx, hy, -⟩ | ⟨e, hx, hy⟩
  · rw [failure_ok hx, failure_ok hy]
  · rw [failure_error hx, failure_error hy]

/-- The same event in front of related computations. -/
lemma Sim.emit_bind (e : E) {f : Unit → Traced E ε β} {g : Unit → Traced E ε β'}
    (h : Sim S (f ()) (g ())) : Sim S (emit e >>= f) (emit e >>= g) := by
  refine Sim.bind (R := fun _ _ => True) ⟨rfl, Or.inl ⟨(), (), rfl, rfl, trivial⟩⟩ ?_
  rintro ⟨⟩ ⟨⟩ -
  exact h

end Traced
