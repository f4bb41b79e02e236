import Mathlib.Tactic.TypeStar

/-!
# How a C or C++ call can end

A call returns, or it is left by an exception with the effects up to the throw in place, or the
language gives it no meaning. The three are kept apart: a `Fault` (undefined behaviour, or never
returning) is an error of the model, while a `CppException` is an outcome of the call.

`Cpp` is the monad of code that can do all three. Reasoning about it goes through two relations:
`Returns m a`, the code is defined, throws nothing and yields `a`, and `StopsWith m stop`, it ends
in another way. Their rules are one equivalence for each way to build code, so a proof peels a
computation apart without unfolding the monad.
-/

namespace Outcome

/-- Behaviour the language leaves undefined, or a call that never returns. -/
inductive Fault
  | nullDeref
  | useAfterFree
  | doubleFree
  | overRead
  | diverges
  deriving DecidableEq, Repr

/-- The standard exceptions. -/
inductive CppException
  | invalidArgument
  | outOfRange
  | lengthError
  deriving DecidableEq, Repr

/-- Code that can throw, over code that can be undefined. -/
abbrev Cpp := ExceptT CppException (Except Fault)

/-- Peel the first step off defined code. -/
theorem bind_eq_ok {ε α β : Type} {x : Except ε α} {f : α → Except ε β} {b : β} :
    x >>= f = .ok b ↔ ∃ a, x = .ok a ∧ f a = .ok b := by
  rcases x with e | a
  · simp [bind, Except.bind]
  · simp [bind, Except.bind]

theorem map_eq_ok {ε α β : Type} {x : Except ε α} {f : α → β} {b : β} :
    x.map f = .ok b ↔ ∃ a, x = .ok a ∧ f a = b := by
  rcases x with e | a
  · simp [Except.map]
  · simp [Except.map]

theorem toOption_eq_some {ε α : Type} {x : Except ε α} {a : α} :
    x.toOption = some a ↔ x = .ok a := by
  rcases x with e | b
  · simp [Except.toOption]
  · simp [Except.toOption]

theorem bind_eq_error {ε α β : Type} {x : Except ε α} {f : α → Except ε β} {e : ε} :
    x >>= f = .error e ↔ x = .error e ∨ ∃ a, x = .ok a ∧ f a = .error e := by
  rcases x with e' | a
  · simp [bind, Except.bind]
  · simp [bind, Except.bind]

/-- Code without meaning. -/
def fault {α : Type} (e : Fault) : Cpp α :=
  ExceptT.mk (.error e)

variable {α β : Type}

/-- The code is defined, throws nothing and yields `a`. -/
def Returns (m : Cpp α) (a : α) : Prop :=
  m.run = .ok (.ok a)

@[simp] theorem returns_pure {a b : α} : Returns (pure a) b ↔ a = b := by
  constructor
  · intro h
    exact Except.ok.inj (Except.ok.inj h)
  · rintro rfl
    rfl

@[simp] theorem not_returns_throw {e : CppException} {a : α} :
    ¬ Returns (throw e : Cpp α) a := by
  intro h
  cases Except.ok.inj h

@[simp] theorem not_returns_fault {e : Fault} {a : α} : ¬ Returns (fault e) a := by
  intro h
  cases h

/-- A sequence returns when both of its parts do. -/
@[simp] theorem returns_bind {m : Cpp α} {f : α → Cpp β} {b : β} :
    Returns (m >>= f) b ↔ ∃ a, Returns m a ∧ Returns (f a) b := by
  constructor
  · intro h
    rcases hm : m.run with e | (e | a)
    · rw [Returns, ExceptT.run_bind, hm] at h
      cases h
    · rw [Returns, ExceptT.run_bind, hm] at h
      cases Except.ok.inj h
    · rw [Returns, ExceptT.run_bind, hm] at h
      exact ⟨a, hm, h⟩
  · rintro ⟨a, hm, h⟩
    rw [Returns] at hm
    rw [Returns, ExceptT.run_bind, hm]
    exact h

@[simp] theorem returns_map {m : Cpp α} {f : α → β} {b : β} :
    Returns (f <$> m) b ↔ ∃ a, Returns m a ∧ f a = b := by
  rw [← bind_pure_comp, returns_bind]
  simp only [returns_pure]

/-- A loop over a list returns from every start exactly when every one of its iterations does, if
that does not depend on the accumulator. -/
theorem exists_returns_foldlM {γ : Type} {step : β → γ → Cpp β} {ok : γ → Prop}
    (hstep : ∀ acc c, (∃ acc', Returns (step acc c) acc') ↔ ok c) (l : List γ) (acc : β) :
    (∃ out, Returns (l.foldlM step acc) out) ↔ ∀ c ∈ l, ok c := by
  induction l generalizing acc with
  | nil => simp
  | cons c l ih =>
    simp only [List.foldlM_cons, returns_bind, List.forall_mem_cons]
    constructor
    · rintro ⟨out, acc', h, hout⟩
      exact ⟨(hstep acc c).1 ⟨acc', h⟩, (ih acc').1 ⟨out, hout⟩⟩
    · rintro ⟨hc, hl⟩
      obtain ⟨acc', h⟩ := (hstep acc c).2 hc
      obtain ⟨out, hout⟩ := (ih acc').2 hl
      exact ⟨out, acc', h, hout⟩

/-! ### How code stops -/

/-- The ways to end without returning. -/
inductive Stop
  | fault (e : Fault)
  | throw (e : CppException)

/-- The code ends in that way. -/
def StopsWith (m : Cpp α) : Stop → Prop
  | .fault e => m.run = .error e
  | .throw e => m.run = .ok (.error e)

/-- Code that returns does not stop. -/
theorem Returns.not_stopsWith {m : Cpp α} {a : α} (h : Returns m a) (stop : Stop) :
    ¬ StopsWith m stop := by
  intro hstop
  rcases stop with e | e
  · cases h.symm.trans hstop
  · cases Except.ok.inj (h.symm.trans hstop)

@[simp] theorem stopsWith_pure {a : α} {stop : Stop} : ¬ StopsWith (pure a : Cpp α) stop :=
  (returns_pure.2 rfl).not_stopsWith stop

@[simp] theorem stopsWith_throw {e : CppException} {stop : Stop} :
    StopsWith (throw e : Cpp α) stop ↔ stop = .throw e := by
  rcases stop with e' | e'
  · exact iff_of_false (fun h ↦ by cases h) fun h ↦ by cases h
  · constructor
    · intro h
      rw [Except.error.inj (Except.ok.inj h)]
    · intro h
      rw [Stop.throw.inj h]
      rfl

@[simp] theorem stopsWith_fault {e : Fault} {stop : Stop} :
    StopsWith (fault e : Cpp α) stop ↔ stop = .fault e := by
  rcases stop with e' | e'
  · constructor
    · intro h
      rw [Except.error.inj h]
    · intro h
      rw [Stop.fault.inj h]
      rfl
  · exact iff_of_false (fun h ↦ by cases h) fun h ↦ by cases h

/-- A sequence stops where its first part does, or its second after the first has returned. -/
@[simp] theorem stopsWith_bind {m : Cpp α} {f : α → Cpp β} {stop : Stop} :
    StopsWith (m >>= f) stop ↔
      StopsWith m stop ∨ ∃ a, Returns m a ∧ StopsWith (f a) stop := by
  rcases hm : m.run with e' | (e' | a)
  · have hrun : (m >>= f).run = .error e' := by rw [ExceptT.run_bind, hm]; rfl
    rcases stop with e | e <;> simp [StopsWith, Returns, hrun, hm]
  · have hrun : (m >>= f).run = .ok (.error e') := by rw [ExceptT.run_bind, hm]; rfl
    rcases stop with e | e <;> simp [StopsWith, Returns, hrun, hm]
  · have hrun : (m >>= f).run = (f a).run := by rw [ExceptT.run_bind, hm]; rfl
    rcases stop with e | e <;> simp [StopsWith, Returns, hrun, hm]

@[simp] theorem stopsWith_map {m : Cpp α} {f : α → β} {stop : Stop} :
    StopsWith (f <$> m) stop ↔ StopsWith m stop := by
  rw [← bind_pure_comp, stopsWith_bind]
  simp

/-- A loop does not stop in a way in which none of its iterations does. -/
theorem not_stopsWith_foldlM {γ : Type} {step : β → γ → Cpp β} {stop : Stop}
    (hstep : ∀ acc c, ¬ StopsWith (step acc c) stop) (l : List γ) (acc : β) :
    ¬ StopsWith (l.foldlM step acc) stop := by
  induction l generalizing acc with
  | nil => simp
  | cons c l ih =>
    rw [List.foldlM_cons, stopsWith_bind]
    rintro (h | ⟨acc', -, h⟩)
    · exact hstep acc c h
    · exact ih acc' h

/-! ### Defined code -/

/-- The code has a meaning: it returns or throws. -/
def Defined (m : Cpp α) : Prop :=
  ∃ r, m.run = .ok r

@[simp] theorem defined_pure {a : α} : Defined (pure a) :=
  ⟨.ok a, rfl⟩

@[simp] theorem defined_throw {e : CppException} : Defined (throw e : Cpp α) :=
  ⟨.error e, rfl⟩

theorem Defined.bind {m : Cpp α} {f : α → Cpp β} (hm : Defined m) (hf : ∀ a, Defined (f a)) :
    Defined (m >>= f) := by
  obtain ⟨e | a, hr⟩ := hm
  · exact ⟨.error e, by rw [ExceptT.run_bind, hr]; rfl⟩
  · obtain ⟨r, ha⟩ := hf a
    exact ⟨r, by rw [ExceptT.run_bind, hr]; exact ha⟩

theorem Defined.foldlM {γ : Type} {step : β → γ → Cpp β}
    (hstep : ∀ acc c, Defined (step acc c)) (l : List γ) (acc : β) :
    Defined (l.foldlM step acc) := by
  induction l generalizing acc with
  | nil => exact defined_pure
  | cons c l ih => exact (hstep acc c).bind ih

end Outcome
