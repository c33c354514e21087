import NeoPostGraph.Lib.Program

/-!
# Programs that take locks

A backend that runs a program waits for the lock of a buffer while another backend holds it. When it
holds the lock itself, it waits for ever. The locks it holds are its own; what the buffers contain, other
backends may change between any two of its steps.

* `LockProg β σ ε α`: programs on states `σ` that take and release the locks of buffers `β`.
* `CanWait p held`: with these locks held, `p` can come to request one of those it holds.
* `Orderly after p held`: it cannot, and holds `after` when it returns.
* `Guards lp p`: `lp` is `p` with locks around its steps: it does what `p` does, never waits for itself
  and holds nothing in the end.
* `zoom`, `onPart`: a program on a part of the state, with its locks and as one step without them.

Results:
* `Orderly.bind`, `GuardsFrom.bind`: sequences of such programs are such programs.
* `guards_underLock`: a program that runs under one lock, taken before and released after it.
* `GuardsFrom.zoom`: a guarded program on a part of the state is one on the whole.
* `GuardsFrom.not_canWait`.
-/

/-- A shared state, and the buffers whose lock the backend holds. -/
structure Locked (β σ : Type) where
  held : List β
  mem : σ

/-- A program ends for an error of its own, or does not end. -/
inductive LockErr (β ε : Type) where
  /-- The backend waits for a lock it holds. -/
  | selfDeadlock (buf : β)
  | error (e : ε)
deriving DecidableEq, Repr

/-- A program with locks. -/
abbrev LockProg (β σ ε α : Type) := Prog (Locked β σ) (LockErr β ε) α

namespace LockProg

variable {β σ ε α γ : Type} {buf : β} {held mid after : List β}

/-! ## Taking and releasing -/

/-- Take the lock of a buffer. -/
def lockBuffer [DecidableEq β] (buf : β) : LockProg β σ ε Unit :=
  Prog.step fun s =>
    if buf ∈ s.held then .error (.selfDeadlock buf) else .ok ((), { s with held := buf :: s.held })

/-- Release the lock of a buffer. -/
def unlockBuffer [DecidableEq β] (buf : β) : LockProg β σ ε Unit :=
  Prog.step fun s => .ok ((), { s with held := s.held.erase buf })

/-- A program that takes no lock. -/
def lift : Prog σ ε α → LockProg β σ ε α
  | .ret a => .ret a
  | .act f k => .act
    (fun s => match f s.mem with
      | .ok (b, m) => .ok (b, { s with mem := m })
      | .error e => .error (.error e))
    fun b => lift (k b)

/-- Run a program under the lock of a buffer. -/
def underLock [DecidableEq β] (buf : β) (p : Prog σ ε α) : LockProg β σ ε α := do
  lockBuffer buf
  let a ← lift p
  unlockBuffer buf
  return a

/-- Lock and release buffers, one after the other. -/
def visitBuffers [DecidableEq β] : List β → LockProg β σ ε Unit
  | [] => return ()
  | buf :: rest => do
    lockBuffer buf
    unlockBuffer buf
    visitBuffers rest

/-! ## Waiting for oneself -/

/-- The program, with these locks held, can come to request one of the locks it holds, when other
backends do anything to the buffers between its steps. -/
def CanWait : LockProg β σ ε α → List β → Prop
  | .ret _, _ => False
  | .act f k, held => ∃ m, (∃ buf, f ⟨held, m⟩ = .error (.selfDeadlock buf)) ∨
    ∃ b s, f ⟨held, m⟩ = .ok (b, s) ∧ CanWait (k b) s.held

/-- The program, run alone from here, comes to request a lock it holds. -/
def SelfDeadlocks (lp : LockProg β σ ε α) (s : Locked β σ) : Prop :=
  ∃ buf s', lp.exec s = (.error (.selfDeadlock buf), s')

/-- With these locks held, the program requests none of those it holds, and holds `after` when it
returns. -/
def Orderly (after : List β) : LockProg β σ ε α → List β → Prop
  | .ret _, held => held = after
  | .act f k, held => ∀ m,
    match f ⟨held, m⟩ with
    | .ok (b, s) => Orderly after (k b) s.held
    | .error (.selfDeadlock _) => False
    | .error (.error _) => True

theorem Orderly.not_canWait {lp : LockProg β σ ε α} (h : Orderly after lp held) :
    ¬ CanWait lp held := by
  induction lp generalizing held with
  | ret a => exact id
  | act f k ih =>
    rintro ⟨m, ⟨buf, hf⟩ | ⟨b, s, hf, hk⟩⟩
    · have hm := h m
      rw [hf] at hm
      exact hm
    · have hm := h m
      rw [hf] at hm
      exact ih b hm hk

theorem Orderly.bind {lp : LockProg β σ ε α} {g : α → LockProg β σ ε γ}
    (h : Orderly mid lp held) (hg : ∀ a, Orderly after (g a) mid) :
    Orderly after (lp >>= g) held := by
  show Orderly after (lp.bind g) held
  induction lp generalizing held with
  | ret a =>
    obtain rfl : held = mid := h
    exact hg a
  | act f k ih =>
    intro m
    have hm := h m
    cases hf : f ⟨held, m⟩ with
    | error e =>
      rw [hf] at hm
      cases e with
      | selfDeadlock buf => exact hm.elim
      | error e => trivial
    | ok x =>
      rw [hf] at hm
      exact ih x.1 hm

theorem orderly_lockBuffer [DecidableEq β] (h : buf ∉ held) :
    Orderly (buf :: held) (lockBuffer buf : LockProg β σ ε Unit) held := by
  intro m
  dsimp only
  rw [if_neg h]
  rfl

theorem orderly_unlockBuffer [DecidableEq β] :
    Orderly (held.erase buf) (unlockBuffer buf : LockProg β σ ε Unit) held := fun _ => rfl

theorem orderly_lift (p : Prog σ ε α) : Orderly held (lift p : LockProg β σ ε α) held := by
  induction p with
  | ret a => rfl
  | act f k ih =>
    intro m
    dsimp only
    cases f m with
    | error e => trivial
    | ok x => exact ih x.1

/-! ## Runs with locks -/

section Runs

variable {lp : LockProg β σ ε α} {p : Prog σ ε α} {s s' : Locked β σ} {a : α}

theorem mapError_error (f : ε → γ) (e : ε) : (Except.error e : Except ε α).mapError f = .error (f e) :=
  rfl

theorem mapError_ok (f : ε → γ) (a : α) : (Except.ok a : Except ε α).mapError f = .ok a := rfl

theorem lift_exec (p : Prog σ ε α) (s : Locked β σ) :
    (lift p : LockProg β σ ε α).exec s =
      ((p.exec s.mem).1.mapError .error, { s with mem := (p.exec s.mem).2 }) := by
  induction p generalizing s with
  | ret a => rfl
  | act f k ih =>
    unfold lift
    rw [Prog.exec_act, Prog.exec_act]
    cases hf : f s.mem with
    | error e => rfl
    | ok x => exact ih x.1 { s with mem := x.2 }

@[simp] theorem runs_lift_iff : (lift p : LockProg β σ ε α).Runs s a s' ↔
    ∃ m, p.Runs s.mem a m ∧ s' = { s with mem := m } := by
  unfold Prog.Runs
  rw [lift_exec]
  rcases p.exec s.mem with ⟨_ | b, m⟩
  · simp [mapError_error]
  · simp [mapError_ok, and_assoc, eq_comm]

@[simp] theorem runs_lockBuffer_iff [DecidableEq β] {u : Unit} :
    (lockBuffer buf : LockProg β σ ε Unit).Runs s u s' ↔
      buf ∉ s.held ∧ s' = { s with held := buf :: s.held } := by
  unfold lockBuffer
  rw [Prog.runs_step_iff]
  by_cases h : buf ∈ s.held <;> simp [h, eq_comm]

@[simp] theorem runs_unlockBuffer_iff [DecidableEq β] {u : Unit} :
    (unlockBuffer buf : LockProg β σ ε Unit).Runs s u s' ↔
      s' = { s with held := s.held.erase buf } := by
  unfold unlockBuffer
  rw [Prog.runs_step_iff]
  simp [eq_comm]

@[simp] theorem selfDeadlocks_ret {a : α} :
    SelfDeadlocks (.ret a : LockProg β σ ε α) s ↔ False := by
  simp [SelfDeadlocks]

@[simp] theorem selfDeadlocks_lift : SelfDeadlocks (lift p : LockProg β σ ε α) s ↔ False := by
  unfold SelfDeadlocks
  rw [lift_exec]
  cases (p.exec s.mem).1 <;> simp [mapError_error, mapError_ok]

@[simp] theorem selfDeadlocks_lockBuffer [DecidableEq β] :
    SelfDeadlocks (lockBuffer buf : LockProg β σ ε Unit) s ↔ buf ∈ s.held := by
  unfold SelfDeadlocks lockBuffer
  rw [Prog.exec_step]
  by_cases h : buf ∈ s.held <;> simp [h]

@[simp] theorem selfDeadlocks_unlockBuffer [DecidableEq β] :
    SelfDeadlocks (unlockBuffer buf : LockProg β σ ε Unit) s ↔ False := by
  simp [SelfDeadlocks, unlockBuffer]

/-- A sequence waits for itself in its first part or in its second. -/
theorem selfDeadlocks_bind_iff {g : α → LockProg β σ ε γ} :
    SelfDeadlocks (lp >>= g) s ↔
      SelfDeadlocks lp s ∨ ∃ a s', lp.Runs s a s' ∧ SelfDeadlocks (g a) s' := by
  unfold SelfDeadlocks
  rw [Prog.exec_bind]
  unfold Prog.Runs
  rcases lp.exec s with ⟨e | a, s'⟩
  · simp
  · simp only [Prod.mk.injEq, reduceCtorEq, false_and, exists_false, false_or, Except.ok.injEq]
    exact ⟨fun h => ⟨a, s', ⟨rfl, rfl⟩, h⟩, fun ⟨_, _, ⟨ha, hs⟩, h⟩ => by rwa [ha, hs]⟩

end Runs

/-! ## Locks around a program -/

/-- **Locks around the steps of a program**: with the locks `before` held it never waits for itself and
comes to hold `after`, and run alone it does what the program does. -/
structure GuardsFrom (before after : List β) (lp : LockProg β σ ε α) (p : Prog σ ε α) : Prop where
  orderly : Orderly after lp before
  runs : ∀ m a m', p.Runs m a m' → lp.Runs ⟨before, m⟩ a ⟨after, m'⟩
  fails : ∀ m e m', p.exec m = (.error e, m') → ∃ s, lp.exec ⟨before, m⟩ = (.error (.error e), s)

/-- Locks around the steps of a program, from none held to none held. -/
abbrev Guards (lp : LockProg β σ ε α) (p : Prog σ ε α) : Prop := GuardsFrom [] [] lp p

section Guards

variable {before : List β} {lp : LockProg β σ ε α} {p : Prog σ ε α}

theorem GuardsFrom.not_canWait (h : GuardsFrom before after lp p) : ¬ CanWait lp before :=
  h.orderly.not_canWait

theorem guards_ret (a : α) :
    GuardsFrom held held (.ret a : LockProg β σ ε α) (.ret a) where
  orderly := rfl
  runs := fun m b m' h => by
    obtain ⟨rfl, rfl⟩ := Prog.runs_ret_iff.mp h
    exact Prog.runs_ret_iff.mpr ⟨rfl, rfl⟩
  fails := fun m e m' h => by cases (Prod.mk.inj h).1

/-- **A sequence of guarded programs.** -/
theorem GuardsFrom.bind {g : α → Prog σ ε γ} {lg : α → LockProg β σ ε γ}
    (h : GuardsFrom before mid lp p) (hg : ∀ a, GuardsFrom mid after (lg a) (g a)) :
    GuardsFrom before after (lp >>= lg) (p >>= g) where
  orderly := h.orderly.bind fun a => (hg a).orderly
  runs := fun m b m' hr => by
    obtain ⟨a, m₁, hp, hg'⟩ := Prog.runs_bind_iff.mp hr
    exact (h.runs m a m₁ hp).bind ((hg a).runs m₁ b m' hg')
  fails := fun m e m' hr => by
    rcases Prog.error_bind_cases hr with hp | ⟨a, m₁, hp, hg'⟩
    · obtain ⟨s, hs⟩ := h.fails m e m' hp
      exact ⟨s, Prog.exec_bind_error hs _⟩
    · obtain ⟨s, hs⟩ := (hg a).fails m₁ e m' hg'
      exact ⟨s, by rw [Prog.exec_bind_ok (h.runs m a m₁ hp), hs]⟩

theorem guards_lift (p : Prog σ ε α) : GuardsFrom held held (lift p : LockProg β σ ε α) p where
  orderly := orderly_lift p
  runs := fun m a m' h => runs_lift_iff.mpr ⟨m', h, rfl⟩
  fails := fun m e m' h => ⟨_, by rw [lift_exec, h]; rfl⟩

/-- Taking a lock is no step of the program. -/
theorem guards_lockBuffer [DecidableEq β] (h : buf ∉ held) :
    GuardsFrom held (buf :: held) (lockBuffer buf : LockProg β σ ε Unit) (.ret ()) where
  orderly := orderly_lockBuffer h
  runs := fun m a m' hr => by
    obtain ⟨-, rfl⟩ := Prog.runs_ret_iff.mp hr
    exact runs_lockBuffer_iff.mpr ⟨h, rfl⟩
  fails := fun m e m' hr => by cases (Prod.mk.inj hr).1

/-- Nor is releasing it. -/
theorem guards_unlockBuffer [DecidableEq β] :
    GuardsFrom (buf :: held) held (unlockBuffer buf : LockProg β σ ε Unit) (.ret ()) where
  orderly := by
    have h : Orderly ((buf :: held).erase buf) (unlockBuffer buf : LockProg β σ ε Unit)
        (buf :: held) := orderly_unlockBuffer
    rwa [List.erase_cons_head] at h
  runs := fun m a m' hr => by
    obtain ⟨-, rfl⟩ := Prog.runs_ret_iff.mp hr
    refine runs_unlockBuffer_iff.mpr ?_
    rw [List.erase_cons_head]
  fails := fun m e m' hr => by cases (Prod.mk.inj hr).1

/-- Nor is looking at what the program does not ask for. -/
theorem guards_look {look : σ → γ} {lk : γ → LockProg β σ ε α}
    (h : ∀ c, GuardsFrom before after (lk c) p) :
    GuardsFrom before after (lift (Prog.read fun m => .ok (look m)) >>= lk) p where
  orderly := (orderly_lift _).bind fun c => (h c).orderly
  runs := fun m a m' hr =>
    (runs_lift_iff.mpr ⟨m, Prog.runs_read_iff.mpr ⟨rfl, rfl⟩, rfl⟩ :
      Prog.Runs _ _ (look m) ⟨before, m⟩).bind ((h (look m)).runs m a m' hr)
  fails := fun m e m' hr => by
    have hlook : (lift (Prog.read fun m => .ok (look m)) : LockProg β σ ε γ).Runs ⟨before, m⟩
        (look m) ⟨before, m⟩ :=
      runs_lift_iff.mpr ⟨m, Prog.runs_read_iff.mpr ⟨rfl, rfl⟩, rfl⟩
    obtain ⟨s, hs⟩ := (h (look m)).fails m e m' hr
    exact ⟨s, by rw [Prog.exec_bind_ok hlook, hs]⟩

/-- **A program under one lock.** -/
theorem guards_underLock [DecidableEq β] (h : buf ∉ held) (p : Prog σ ε α) :
    GuardsFrom held held (underLock buf p : LockProg β σ ε α) p := by
  have hp : p >>= (fun a => .ret a) = p := bind_pure p
  have hrest : GuardsFrom (buf :: held) held
      (do let a ← lift p; unlockBuffer buf; return a : LockProg β σ ε α) (p >>= fun a => .ret a) :=
    (guards_lift p).bind fun a => guards_unlockBuffer.bind fun _ => guards_ret a
  rw [hp] at hrest
  exact (guards_lockBuffer h).bind fun _ => hrest

/-- Locks taken and released before a program. -/
theorem GuardsFrom.preceded {lq : LockProg β σ ε Unit} (hq : GuardsFrom before mid lq (.ret ()))
    (h : GuardsFrom mid after lp p) : GuardsFrom before after (lq >>= fun _ => lp) p :=
  hq.bind fun _ => h

theorem guards_visitBuffers [DecidableEq β] (bufs : List β) :
    Guards (visitBuffers bufs : LockProg β σ ε Unit) (.ret ()) := by
  induction bufs with
  | nil => exact guards_ret ()
  | cons buf rest ih =>
    exact (guards_lockBuffer List.not_mem_nil).preceded (guards_unlockBuffer.preceded ih)

end Guards

/-! ## A part of the state -/

section Zoom

variable {τ δ : Type} (get : τ → σ) (set : σ → τ → τ) (err : ε → δ)

/-- An error of the program on a part of the state, as one on the whole. -/
def wrapErr : LockErr β ε → LockErr β δ
  | .selfDeadlock buf => .selfDeadlock buf
  | .error e => .error (err e)

/-- A program on a part of the state. -/
def zoom : LockProg β σ ε α → LockProg β τ δ α
  | .ret a => .ret a
  | .act f k => .act
    (fun s => match f ⟨s.held, get s.mem⟩ with
      | .ok (b, t) => .ok (b, ⟨t.held, set t.mem s.mem⟩)
      | .error e => .error (wrapErr err e))
    fun b => zoom (k b)

/-- A program on a part of the state, as one step on the whole: nothing is left of it when it fails. -/
def onPart (p : Prog σ ε α) : Prog τ δ α :=
  Prog.step fun t =>
    match p.exec (get t) with
    | (.ok a, m) => .ok (a, set m t)
    | (.error e, _) => .error (err e)

variable {get set err}

theorem orderly_zoom {lp : LockProg β σ ε α} (h : Orderly after lp held) :
    Orderly after (zoom get set err lp) held := by
  induction lp generalizing held with
  | ret a => exact h
  | act f k ih =>
    intro t
    have hm := h (get t)
    dsimp only
    cases hf : f ⟨held, get t⟩ with
    | error e =>
      rw [hf] at hm
      cases e with
      | selfDeadlock buf => exact hm.elim
      | error e => trivial
    | ok x =>
      rw [hf] at hm
      exact ih x.1 hm

section Lens

variable (hget : ∀ m t, get (set m t) = m) (hset : ∀ m m' t, set m (set m' t) = set m t)
  (hself : ∀ t, set (get t) t = t)
include hget hset hself

theorem zoom_exec (err : ε → δ) (lp : LockProg β σ ε α) (held : List β) (t : τ) :
    ∃ s, (zoom get set err lp).exec ⟨held, t⟩ =
        ((lp.exec ⟨held, get t⟩).1.mapError (wrapErr err), s) ∧
      ∀ a, (lp.exec ⟨held, get t⟩).1 = .ok a → s = ⟨(lp.exec ⟨held, get t⟩).2.held,
        set (lp.exec ⟨held, get t⟩).2.mem t⟩ := by
  induction lp generalizing held t with
  | ret a => exact ⟨⟨held, t⟩, rfl, fun _ _ => by rw [Prog.exec_ret, hself]⟩
  | act f k ih =>
    unfold zoom
    rw [Prog.exec_act, Prog.exec_act]
    dsimp only
    cases hf : f ⟨held, get t⟩ with
    | error e => exact ⟨_, rfl, fun _ h => by cases h⟩
    | ok x =>
      obtain ⟨b, ⟨held', m⟩⟩ := x
      obtain ⟨s, hs, hok⟩ := ih b held' (set m t)
      rw [hget] at hs hok
      exact ⟨s, hs, fun a ha => by rw [hok a ha, hset]⟩

/-- **A guarded program on a part of the state.** -/
theorem GuardsFrom.zoom {before : List β} {lp : LockProg β σ ε α} {p : Prog σ ε α}
    (h : GuardsFrom before after lp p) :
    GuardsFrom before after (zoom get set err lp) (onPart get set err p) where
  orderly := orderly_zoom h.orderly
  runs := fun t a t' hr => by
    have hstep := Prog.runs_step_iff.mp hr
    obtain ⟨s, hs, hok⟩ := zoom_exec hget hset hself err lp before t
    rcases hp : p.exec (get t) with ⟨_ | b, m⟩
    · simp [hp] at hstep
    · simp only [hp, Except.ok.injEq, Prod.mk.injEq] at hstep
      obtain ⟨rfl, rfl⟩ := hstep
      have hlp : lp.exec ⟨before, get t⟩ = (.ok b, ⟨after, m⟩) := h.runs (get t) b m hp
      unfold Prog.Runs
      rw [hs, hok b (by rw [hlp]), hlp]
      rfl
  fails := fun t e t' hr => by
    obtain ⟨s, hs, -⟩ := zoom_exec hget hset hself err lp before t
    unfold onPart at hr
    rw [Prog.exec_step] at hr
    rcases hp : p.exec (get t) with ⟨e' | b, m⟩
    · obtain ⟨s', hs'⟩ := h.fails (get t) e' m hp
      simp only [hp, Prod.mk.injEq, Except.error.injEq] at hr
      obtain ⟨rfl, -⟩ := hr
      exact ⟨s, by rw [hs, hs']; rfl⟩
    · simp [hp] at hr

end Lens

end Zoom

end LockProg
