import Mathlib.Data.List.Basic

/-!
# Computations with a trace

A computation that logs what it touches, and then returns or stops with an error. What it had touched
before it stopped stays in the log.

* `Traced.Within P`: everything touched satisfies `P`.

Results:
* `within_bind_iff`: a sequence stays within if its first part does, and each rest that is reached.
* `within_relabel_iff`: the same under other names for what is touched.
-/

/-- A log, and a result or an error. -/
structure Traced (ρ ε α : Type) where
  log : List ρ
  result : Except ε α

namespace Traced

variable {ρ ρ' ε α β : Type} {P : ρ → Prop} {x : Traced ρ ε α} {f : α → Traced ρ ε β}

def ret (a : α) : Traced ρ ε α := ⟨[], .ok a⟩

def fail (e : ε) : Traced ρ ε α := ⟨[], .error e⟩

/-- Touch these, and know this. -/
def touch (rs : List ρ) (a : α) : Traced ρ ε α := ⟨rs, .ok a⟩

def andThen (x : Traced ρ ε α) (f : α → Traced ρ ε β) : Traced ρ ε β :=
  match x.result with
  | .ok a => ⟨x.log ++ (f a).log, (f a).result⟩
  | .error e => ⟨x.log, .error e⟩

instance : Monad (Traced ρ ε) where
  pure := ret
  bind := andThen

/-- The same computation, with other names for what it touches. -/
def relabel (g : ρ → ρ') (x : Traced ρ ε α) : Traced ρ' ε α := ⟨x.log.map g, x.result⟩

/-- Everything touched satisfies `P`. -/
def Within (x : Traced ρ ε α) (P : ρ → Prop) : Prop := ∀ r ∈ x.log, P r

@[simp] theorem within_ret (a : α) : (ret a : Traced ρ ε α).Within P := by
  intro r hr
  exact absurd hr List.not_mem_nil

@[simp] theorem within_pure (a : α) : (pure a : Traced ρ ε α).Within P := within_ret a

@[simp] theorem within_fail (e : ε) : (fail e : Traced ρ ε α).Within P := by
  intro r hr
  exact absurd hr List.not_mem_nil

@[simp] theorem within_touch_iff (rs : List ρ) (a : α) :
    (touch rs a : Traced ρ ε α).Within P ↔ ∀ r ∈ rs, P r := Iff.rfl

/-- **A sequence stays within part by part**, as far as it gets. -/
theorem within_bind_iff :
    (x >>= f).Within P ↔ x.Within P ∧ ∀ a, x.result = .ok a → (f a).Within P := by
  show (andThen x f).Within P ↔ _
  unfold andThen Within
  cases hx : x.result with
  | error e => simp
  | ok a =>
    simp only [List.mem_append, Except.ok.injEq, forall_eq']
    constructor
    · intro h
      exact ⟨fun r hr => h r (Or.inl hr), fun r hr => h r (Or.inr hr)⟩
    · rintro ⟨h1, h2⟩ r (hr | hr)
      · exact h1 r hr
      · exact h2 r hr

@[simp] theorem within_relabel_iff (g : ρ → ρ') {Q : ρ' → Prop} :
    (x.relabel g).Within Q ↔ x.Within fun r => Q (g r) := by
  unfold relabel Within
  simp

@[simp] theorem result_relabel (g : ρ → ρ') : (x.relabel g).result = x.result := rfl

end Traced
