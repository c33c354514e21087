import Mathlib.Logic.Basic

/-!
# Programs of atomic steps

A program over a shared state, as a tree of the atomic steps it takes. A step reads and writes the
state at once, or fails and leaves it alone; between two steps other programs may run. The tree
gives both readings: `exec` runs a program by itself to its end, and a scheduler can take one step
of one program at a time.

* `Prog σ ε α`: programs on states `σ` with errors `ε` and results `α`.
* `Prog.exec`: run alone. An error ends the run, and keeps what the steps before it wrote.
* `Prog.Runs p s a s'`: `p` started in `s` ends with result `a` in `s'`.
* `Prog.Reaches p s t`: `p` started in `s` can be cut off in `t`.
* `Prog.Keeps I p`: every step `p` can take preserves `I`, whatever happens between the steps.
* `Prog.Triple P p Q E`: `p` run alone from a state with `P` ends with a result and `Q`, or fails and
  leaves `E`.

Results:
* `exec_bind`, `runs_bind_iff`: running a sequence is running its parts in order.
* `Triple.bind`: so are its triples put together.
* `Keeps.exec`: an invariant every step preserves survives the whole run, failed or not.
-/

/-- A program of atomic steps: a result, or a step and the program after it. -/
inductive Prog (σ ε α : Type) : Type 1 where
  /-- End with a result. -/
  | ret (a : α)
  /-- Take one atomic step, then go on with its result. -/
  | act {β : Type} (f : σ → Except ε (β × σ)) (k : β → Prog σ ε α)

namespace Prog

variable {σ ε α β : Type}

/-- Run a program, then another with its result. -/
def bind : Prog σ ε α → (α → Prog σ ε β) → Prog σ ε β
  | ret a, g => g a
  | act f k, g => act f fun b => (k b).bind g

instance : Monad (Prog σ ε) where
  pure := ret
  bind := bind

/-- One atomic step. -/
def step (f : σ → Except ε (α × σ)) : Prog σ ε α := act f ret

/-- A step that only reads. -/
def read (f : σ → Except ε α) : Prog σ ε α := step fun s => (f s).map (·, s)

/-- A step that only writes. -/
def write (f : σ → Except ε σ) : Prog σ ε Unit := step fun s => (f s).map ((), ·)

/-- Raise an error. -/
def fail (e : ε) : Prog σ ε α := step fun _ => .error e

/-- Run a program by itself. -/
def exec : Prog σ ε α → σ → Except ε α × σ
  | ret a, s => (.ok a, s)
  | act f k, s =>
    match f s with
    | .ok (b, s') => (k b).exec s'
    | .error e => (.error e, s)

/-- The program started in `s` ends with this result in this state. -/
def Runs (p : Prog σ ε α) (s : σ) (a : α) (s' : σ) : Prop := p.exec s = (.ok a, s')

@[simp] theorem pure_eq (a : α) : (pure a : Prog σ ε α) = ret a := rfl

@[simp] theorem exec_ret (a : α) (s : σ) : (ret a : Prog σ ε α).exec s = (.ok a, s) := rfl

theorem exec_act (f : σ → Except ε (β × σ)) (k : β → Prog σ ε α) (s : σ) :
    (act f k).exec s = match f s with
      | .ok (b, s') => (k b).exec s'
      | .error e => (.error e, s) := by
  rw [exec]

@[simp] theorem exec_step (f : σ → Except ε (α × σ)) (s : σ) :
    (step f).exec s = match f s with
      | .ok (a, s') => (.ok a, s')
      | .error e => (.error e, s) :=
  exec_act f ret s

@[simp] theorem exec_read (f : σ → Except ε α) (s : σ) : (read f).exec s = (f s, s) := by
  unfold read
  cases h : f s <;> simp [h, Except.map]

@[simp] theorem exec_write (f : σ → Except ε σ) (s : σ) :
    (write f).exec s = match f s with
      | .ok s' => (.ok (), s')
      | .error e => (.error e, s) := by
  unfold write
  cases h : f s <;> simp [h, Except.map]

@[simp] theorem exec_fail (e : ε) (s : σ) : (fail e : Prog σ ε α).exec s = (.error e, s) := rfl

/-- **Running a sequence is running its parts in order**, as far as the first error. -/
theorem exec_bind (p : Prog σ ε α) (g : α → Prog σ ε β) (s : σ) :
    (p >>= g).exec s = match p.exec s with
      | (.ok a, s') => (g a).exec s'
      | (.error e, s') => (.error e, s') := by
  show (p.bind g).exec s = _
  induction p generalizing s with
  | ret a => rfl
  | act f k ih =>
    show (act f fun b => (k b).bind g).exec s = _
    rw [exec_act, exec_act]
    cases f s with
    | error e => rfl
    | ok x => exact ih x.1 x.2

theorem exec_bind_ok {p : Prog σ ε α} {s s' : σ} {a : α} (h : p.exec s = (.ok a, s'))
    (g : α → Prog σ ε β) : (p >>= g).exec s = (g a).exec s' := by
  rw [exec_bind, h]

theorem exec_bind_error {p : Prog σ ε α} {s s' : σ} {e : ε} (h : p.exec s = (.error e, s'))
    (g : α → Prog σ ε β) : (p >>= g).exec s = (.error e, s') := by
  rw [exec_bind, h]

instance : LawfulMonad (Prog σ ε) := LawfulMonad.mk' _
  (fun p => by
    show p.bind (fun a => ret a) = p
    induction p with
    | ret a => rfl
    | act f k ih => exact congrArg (act f) (funext ih))
  (fun _ _ => rfl)
  (fun p g h => by
    show (p.bind g).bind h = p.bind fun a => (g a).bind h
    induction p with
    | ret a => rfl
    | act f k ih => exact congrArg (act f) (funext ih))

/-- A property of the state a sequence leaves: the first part leaves it when it fails, and else the
second. -/
theorem exec_bind_ind {I : σ → Prop} {p : Prog σ ε α} {g : α → Prog σ ε β} {s : σ}
    (herr : ∀ e s', p.exec s = (.error e, s') → I s')
    (hok : ∀ a s', p.exec s = (.ok a, s') → I ((g a).exec s').2) : I ((p >>= g).exec s).2 := by
  rw [exec_bind]
  rcases hp : p.exec s with ⟨e | a, s'⟩
  · exact herr e s' hp
  · exact hok a s' hp

/-- A step that fails leaves the state alone. -/
theorem step_error {f : σ → Except ε (α × σ)} {s s' : σ} {e : ε}
    (h : (step f).exec s = (.error e, s')) : s' = s := by
  rw [exec_step] at h
  cases hf : f s with
  | error e' =>
    rw [hf] at h
    exact (Prod.mk.inj h).2.symm
  | ok x =>
    rw [hf] at h
    cases (Prod.mk.inj h).1

/-- A step fails and leaves the state alone, or ends with a result. -/
theorem step_cases (f : σ → Except ε (α × σ)) (s : σ) :
    (∃ e, (step f).exec s = (.error e, s)) ∨ ∃ a s', (step f).exec s = (.ok a, s') := by
  rw [exec_step]
  cases f s with
  | error e => exact Or.inl ⟨e, rfl⟩
  | ok x => exact Or.inr ⟨x.1, x.2, rfl⟩

/-! ## Runs that end with a result -/

theorem runs_of_ok {p : Prog σ ε α} {s : σ} {a : α} (h : (p.exec s).1 = .ok a) :
    p.Runs s a (p.exec s).2 := Prod.ext h rfl

theorem Runs.det {p : Prog σ ε α} {s s₁ s₂ : σ} {a₁ a₂ : α} (h₁ : p.Runs s a₁ s₁)
    (h₂ : p.Runs s a₂ s₂) : a₁ = a₂ ∧ s₁ = s₂ := by
  unfold Runs at h₁ h₂
  rw [h₁] at h₂
  simpa using h₂

@[simp] theorem runs_ret_iff {a b : α} {s s' : σ} :
    (ret a : Prog σ ε α).Runs s b s' ↔ b = a ∧ s' = s := by
  unfold Runs
  rw [exec_ret, Prod.mk.injEq, Except.ok.injEq]
  exact and_congr eq_comm eq_comm

@[simp] theorem runs_fail_iff {e : ε} {a : α} {s s' : σ} :
    (fail e : Prog σ ε α).Runs s a s' ↔ False := by
  simp [Runs]

@[simp] theorem runs_read_iff {f : σ → Except ε α} {s s' : σ} {a : α} :
    (read f).Runs s a s' ↔ f s = .ok a ∧ s' = s := by
  unfold Runs
  rw [exec_read, Prod.mk.injEq]
  exact and_congr Iff.rfl eq_comm

@[simp] theorem runs_write_iff {f : σ → Except ε σ} {s s' : σ} {u : Unit} :
    (write f).Runs s u s' ↔ f s = .ok s' := by
  unfold Runs
  rw [exec_write]
  cases f s <;> simp

@[simp] theorem runs_step_iff {f : σ → Except ε (α × σ)} {s s' : σ} {a : α} :
    (step f).Runs s a s' ↔ f s = .ok (a, s') := by
  unfold Runs
  rw [exec_step]
  cases f s <;> simp [Prod.ext_iff]

/-- A sequence ends with a result exactly when both parts do. -/
theorem runs_bind_iff {p : Prog σ ε α} {g : α → Prog σ ε β} {s s'' : σ} {b : β} :
    (p >>= g).Runs s b s'' ↔ ∃ a s', p.Runs s a s' ∧ (g a).Runs s' b s'' := by
  unfold Runs
  rw [exec_bind]
  constructor
  · intro h
    rcases hp : p.exec s with ⟨_ | a, s'⟩
    · simp [hp] at h
    · exact ⟨a, s', rfl, by simpa [hp] using h⟩
  · rintro ⟨a, s', hp, hg⟩
    rw [hp]
    exact hg

/-- A sequence fails in its first part or in its second. -/
theorem error_bind_cases {p : Prog σ ε α} {g : α → Prog σ ε β} {s s'' : σ} {e : ε}
    (h : (p >>= g).exec s = (.error e, s'')) :
    p.exec s = (.error e, s'') ∨ ∃ a s', p.Runs s a s' ∧ (g a).exec s' = (.error e, s'') := by
  rw [exec_bind] at h
  rcases hp : p.exec s with ⟨e' | a, s'⟩
  · rw [hp] at h
    cases h
    exact .inl rfl
  · rw [hp] at h
    exact .inr ⟨a, s', hp, h⟩

theorem Runs.bind {p : Prog σ ε α} {g : α → Prog σ ε β} {s s' s'' : σ} {a : α} {b : β}
    (hp : p.Runs s a s') (hg : (g a).Runs s' b s'') : (p >>= g).Runs s b s'' :=
  runs_bind_iff.mpr ⟨a, s', hp, hg⟩

/-! ## Invariants of every step -/

/-- Every step the program can take preserves `I`, in whatever state it is taken. -/
def Keeps (I : σ → Prop) : Prog σ ε α → Prop
  | ret _ => True
  | act f k => (∀ s b s', I s → f s = .ok (b, s') → I s') ∧ ∀ b, (k b).Keeps I

theorem keeps_ret (I : σ → Prop) (a : α) : (ret a : Prog σ ε α).Keeps I := trivial

theorem keeps_read (I : σ → Prop) (f : σ → Except ε α) : (read f).Keeps I := by
  refine ⟨fun s b s' hI h => ?_, fun _ => trivial⟩
  cases hf : f s with
  | error e => simp [hf, Except.map] at h
  | ok a =>
    simp only [hf, Except.map, Except.ok.injEq, Prod.mk.injEq] at h
    rwa [← h.2]

theorem keeps_fail (I : σ → Prop) (e : ε) : (fail e : Prog σ ε α).Keeps I := by
  refine ⟨fun s b s' _ h => ?_, fun _ => trivial⟩
  cases h

theorem keeps_write {I : σ → Prop} {f : σ → Except ε σ}
    (h : ∀ s s', I s → f s = .ok s' → I s') : (write f).Keeps I := by
  refine ⟨fun s b s' hI hf => ?_, fun _ => trivial⟩
  cases hs : f s with
  | error e => simp [hs, Except.map] at hf
  | ok t =>
    simp only [hs, Except.map, Except.ok.injEq, Prod.mk.injEq] at hf
    rw [← hf.2]
    exact h s t hI hs

theorem keeps_step {I : σ → Prop} {f : σ → Except ε (α × σ)}
    (h : ∀ s a s', I s → f s = .ok (a, s') → I s') : (step f).Keeps I :=
  ⟨h, fun _ => trivial⟩

theorem keeps_of_runs {I : σ → Prop} {f : σ → Except ε (α × σ)}
    (h : ∀ s a s', I s → (step f).Runs s a s' → I s') : (step f).Keeps I :=
  keeps_step fun s a s' hs hf => h s a s' hs (runs_step_iff.mpr hf)

theorem Keeps.bind {I : σ → Prop} {p : Prog σ ε α} {g : α → Prog σ ε β} (hp : p.Keeps I)
    (hg : ∀ a, (g a).Keeps I) : (p >>= g).Keeps I := by
  show (p.bind g).Keeps I
  induction p with
  | ret a => exact hg a
  | act f k ih => exact ⟨hp.1, fun b => ih b (hp.2 b)⟩

/-- **An invariant every step preserves survives the run**, whether it ends with a result or an
error. -/
theorem Keeps.exec {I : σ → Prop} {p : Prog σ ε α} (hp : p.Keeps I) {s : σ} (hs : I s) :
    I (p.exec s).2 := by
  induction p generalizing s with
  | ret a => exact hs
  | act f k ih =>
    rw [exec_act]
    cases hf : f s with
    | error e => exact hs
    | ok x => exact ih x.1 (hp.2 x.1) (hp.1 s x.1 x.2 hs hf)

/-- Steps that are related to the state before them are related to the first state. -/
theorem Keeps.trans_rel {R R' : σ → σ → Prop} (hR : ∀ s, R s s)
    (htrans : ∀ s t u, R' s t → R t u → R' s u) {p : Prog σ ε α} (hp : ∀ s, p.Keeps (R s)) (s₀ : σ) :
    p.Keeps (R' s₀) := by
  induction p with
  | ret a => trivial
  | act f k ih =>
    exact ⟨fun s b s' hs hf => htrans s₀ s s' hs ((hp s).1 s b s' (hR s) hf),
      fun b => ih b fun s => (hp s).2 b⟩

theorem Keeps.runs {I : σ → Prop} {p : Prog σ ε α} (hp : p.Keeps I) {s s' : σ} {a : α}
    (h : p.Runs s a s') (hs : I s) : I s' := by
  have hI := hp.exec hs
  rw [h] at hI
  exact hI

/-! ## Runs that are cut off -/

/-- The program started in `s` has the state `t` when it has taken some number of its steps. -/
def Reaches : Prog σ ε α → σ → σ → Prop
  | ret _, s, t => t = s
  | act f k, s, t => t = s ∨ ∃ b s', f s = .ok (b, s') ∧ (k b).Reaches s' t

theorem Reaches.refl (p : Prog σ ε α) (s : σ) : p.Reaches s s := by
  cases p with
  | ret a => rfl
  | act f k => exact .inl rfl

/-- The end of a run is one of its states. -/
theorem reaches_exec (p : Prog σ ε α) (s : σ) : p.Reaches s (p.exec s).2 := by
  induction p generalizing s with
  | ret a => rfl
  | act f k ih =>
    rw [exec_act]
    cases hf : f s with
    | error e => exact .inl rfl
    | ok x => exact .inr ⟨x.1, x.2, hf, ih x.1 x.2⟩

theorem Runs.reaches {p : Prog σ ε α} {s s' : σ} {a : α} (h : p.Runs s a s') : p.Reaches s s' := by
  have hr := p.reaches_exec s
  rw [h] at hr
  exact hr

@[simp] theorem reaches_ret_iff {a : α} {s t : σ} :
    (ret a : Prog σ ε α).Reaches s t ↔ t = s := Iff.rfl

@[simp] theorem reaches_fail_iff {e : ε} {s t : σ} :
    (fail e : Prog σ ε α).Reaches s t ↔ t = s := by
  constructor
  · rintro (h | ⟨b, s', hf, -⟩)
    · exact h
    · cases hf
  · exact .inl

theorem reaches_step_iff {f : σ → Except ε (α × σ)} {s t : σ} :
    (step f).Reaches s t ↔ t = s ∨ ∃ a, (step f).Runs s a t := by
  refine or_congr_right ⟨?_, ?_⟩
  · rintro ⟨a, s', hf, rfl⟩
    exact ⟨a, runs_step_iff.mpr hf⟩
  · rintro ⟨a, hr⟩
    exact ⟨a, t, runs_step_iff.mp hr, rfl⟩

@[simp] theorem reaches_read_iff {f : σ → Except ε α} {s t : σ} :
    (read f).Reaches s t ↔ t = s := by
  constructor
  · intro h
    rcases reaches_step_iff.mp h with rfl | ⟨a, hr⟩
    · rfl
    · exact (runs_read_iff.mp hr).2
  · rintro rfl
    exact Reaches.refl ..

theorem reaches_write_iff {f : σ → Except ε σ} {s t : σ} :
    (write f).Reaches s t ↔ t = s ∨ f s = .ok t := by
  refine reaches_step_iff.trans (or_congr_right ⟨?_, fun h => ⟨(), runs_write_iff.mpr h⟩⟩)
  rintro ⟨u, hr⟩
  exact runs_write_iff.mp hr

/-- A sequence is cut off in its first part, or in its second. -/
theorem reaches_bind_iff {p : Prog σ ε α} {g : α → Prog σ ε β} {s t : σ} :
    (p >>= g).Reaches s t ↔ p.Reaches s t ∨ ∃ a s', p.Runs s a s' ∧ (g a).Reaches s' t := by
  show (p.bind g).Reaches s t ↔ _
  induction p generalizing s with
  | ret a =>
    show (g a).Reaches s t ↔ _
    constructor
    · intro h
      exact .inr ⟨a, s, rfl, h⟩
    · rintro (rfl | ⟨b, s', hr, h⟩)
      · exact Reaches.refl ..
      · obtain ⟨rfl, rfl⟩ := runs_ret_iff.mp hr
        exact h
  | act f k ih =>
    show (t = s ∨ ∃ b s', f s = .ok (b, s') ∧ ((k b).bind g).Reaches s' t) ↔ _
    constructor
    · rintro (rfl | ⟨b, s', hf, h⟩)
      · exact .inl (.inl rfl)
      · rcases (ih b).mp h with hp | ⟨a, s'', hr, hg⟩
        · exact .inl (.inr ⟨b, s', hf, hp⟩)
        · refine .inr ⟨a, s'', ?_, hg⟩
          unfold Runs
          rw [exec_act, hf]
          exact hr
    · rintro ((rfl | ⟨b, s', hf, hp⟩) | ⟨a, s'', hr, hg⟩)
      · exact .inl rfl
      · exact .inr ⟨b, s', hf, (ih b).mpr (.inl hp)⟩
      · unfold Runs at hr
        rw [exec_act] at hr
        cases hf : f s with
        | error e =>
          rw [hf] at hr
          cases (Prod.mk.inj hr).1
        | ok x =>
          rw [hf] at hr
          exact .inr ⟨x.1, x.2, rfl, (ih x.1).mpr (.inr ⟨a, s'', hr, hg⟩)⟩

/-- A read first is no state of its own. -/
theorem reaches_read_bind {f : σ → Except ε α} {g : α → Prog σ ε β} {s t : σ} {a : α}
    (h : f s = .ok a) : (read f >>= g).Reaches s t ↔ (g a).Reaches s t := by
  refine reaches_bind_iff.trans ⟨?_, fun hg => .inr ⟨a, s, runs_read_iff.mpr ⟨h, rfl⟩, hg⟩⟩
  rintro (hr | ⟨b, s', hr, hg⟩)
  · rw [reaches_read_iff.mp hr]
    exact Reaches.refl ..
  · obtain ⟨hb, rfl⟩ := runs_read_iff.mp hr
    cases h.symm.trans hb
    exact hg

theorem runs_read_bind {f : σ → Except ε α} {g : α → Prog σ ε β} {s t : σ} {a : α} {b : β}
    (h : f s = .ok a) : (read f >>= g).Runs s b t ↔ (g a).Runs s b t := by
  refine runs_bind_iff.trans ⟨?_, fun hg => ⟨a, s, runs_read_iff.mpr ⟨h, rfl⟩, hg⟩⟩
  rintro ⟨a', s', hr, hg⟩
  obtain ⟨ha, rfl⟩ := runs_read_iff.mp hr
  cases h.symm.trans ha
  exact hg

/-- **An invariant every step preserves holds wherever the run is cut off.** -/
theorem Keeps.reaches {I : σ → Prop} {p : Prog σ ε α} (hp : p.Keeps I) {s t : σ}
    (h : p.Reaches s t) (hs : I s) : I t := by
  induction p generalizing s with
  | ret a =>
    rw [reaches_ret_iff.mp h]
    exact hs
  | act f k ih =>
    rcases h with rfl | ⟨b, s', hf, hk⟩
    · exact hs
    · exact ih b (hp.2 b) hk (hp.1 s b s' hs hf)

/-! ## Triples -/

/-- Run alone from a state with `P`, the program ends with a result and `Q`, or fails and leaves
`E`. -/
def Triple (P : σ → Prop) (p : Prog σ ε α) (Q : α → σ → Prop) (E : σ → Prop) : Prop :=
  ∀ s, P s → (∀ a s', p.Runs s a s' → Q a s') ∧ ∀ e s', p.exec s = (.error e, s') → E s'

section

variable {P P' E E' I : σ → Prop} {p : Prog σ ε α} {Q Q' : α → σ → Prop} {R : β → σ → Prop}

theorem Triple.weaken (h : Triple P p Q E) (hP : ∀ s, P' s → P s) (hQ : ∀ a s, Q a s → Q' a s)
    (hE : ∀ s, E s → E' s) : Triple P' p Q' E' := fun s hs =>
  ⟨fun a s' hr => hQ a s' ((h s (hP s hs)).1 a s' hr),
    fun e s' hr => hE s' ((h s (hP s hs)).2 e s' hr)⟩

theorem Triple.post (h : Triple P p Q E) (hQ : ∀ a s, Q a s → Q' a s) : Triple P p Q' E :=
  h.weaken (fun _ hs => hs) hQ fun _ hs => hs

theorem Triple.pre (h : Triple P p Q E) (hP : ∀ s, P' s → P s) : Triple P' p Q E :=
  h.weaken hP (fun _ _ hs => hs) fun _ hs => hs

/-- What a fact about the start says of the run can be used as a hypothesis. -/
theorem triple_assume {F : Prop} (hF : ∀ s, P s → F) (h : F → Triple P p Q E) : Triple P p Q E :=
  fun s hs => h (hF s hs) s hs

theorem triple_ret {a : α} (h : ∀ s, P s → Q a s) : Triple P (ret a : Prog σ ε α) Q E := by
  intro s hs
  refine ⟨fun b s' hr => ?_, fun e s' hr => ?_⟩
  · obtain ⟨rfl, rfl⟩ := runs_ret_iff.mp hr
    exact h _ hs
  · cases (Prod.mk.inj hr).1

theorem triple_fail {e : ε} (h : ∀ s, P s → E s) : Triple P (fail e : Prog σ ε α) Q E := by
  intro s hs
  refine ⟨fun a s' hr => absurd hr runs_fail_iff.mp, fun e' s' hr => ?_⟩
  rw [← (Prod.mk.inj hr).2]
  exact h s hs

/-- A step that fails leaves the state alone. -/
theorem triple_step {f : σ → Except ε (α × σ)}
    (hok : ∀ s a s', P s → (step f).Runs s a s' → Q a s') (herr : ∀ s, P s → E s) :
    Triple P (step f) Q E := fun s hs =>
  ⟨fun a s' hr => hok s a s' hs hr, fun e s' hr => by
    rw [step_error hr]
    exact herr s hs⟩

/-- A sequence does what its parts do in order. -/
theorem Triple.bind {g : α → Prog σ ε β} (hp : Triple P p Q E)
    (hg : ∀ a, Triple (Q a) (g a) R E) : Triple P (p >>= g) R E := by
  intro s hs
  obtain ⟨hok, herr⟩ := hp s hs
  refine ⟨fun b s'' hr => ?_, fun e s'' hr => ?_⟩
  · obtain ⟨a, s', h₁, h₂⟩ := runs_bind_iff.mp hr
    exact (hg a s' (hok a s' h₁)).1 b s'' h₂
  · rw [exec_bind] at hr
    rcases hp : p.exec s with ⟨e' | a, s'⟩
    · rw [hp] at hr
      rw [← (Prod.mk.inj hr).2]
      exact herr e' s' hp
    · rw [hp] at hr
      exact (hg a s' (hok a s' hp)).2 e s'' hr

/-- An invariant every step preserves is one of the run. -/
theorem Keeps.triple (h : p.Keeps I) : Triple I p (fun _ => I) I := fun s hs =>
  ⟨fun a s' hr => by
    have hI := h.exec hs
    rw [hr] at hI
    exact hI, fun e s' hr => by
    have hI := h.exec hs
    rw [hr] at hI
    exact hI⟩

/-- A program that never writes ends where it started. -/
theorem exec_of_reads {p : Prog σ ε α} {s : σ} (hk : p.Keeps (· = s)) : (p.exec s).2 = s :=
  hk.exec (I := (· = s)) rfl

theorem triple_of_reads (hk : ∀ s, p.Keeps (· = s)) (hok : ∀ s a, P s → p.Runs s a s → Q a s)
    (herr : ∀ s, P s → E s) : Triple P p Q E := by
  intro s hs
  have he := exec_of_reads (hk s)
  refine ⟨fun a s' hr => ?_, fun e s' hr => ?_⟩
  · obtain rfl : s' = s := by rwa [hr] at he
    exact hok s' a hs hr
  · rw [hr] at he
    subst he
    exact herr s' hs

/-- What a run leaves, however it ends. -/
theorem Triple.exec (h : Triple P p (fun _ => E) E) {s : σ} (hs : P s) : E (p.exec s).2 := by
  obtain ⟨hok, herr⟩ := h s hs
  rcases hr : p.exec s with ⟨e | a, s'⟩
  · exact herr e s' hr
  · exact hok a s' hr

end

end Prog
