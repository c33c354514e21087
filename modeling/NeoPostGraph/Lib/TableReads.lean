import NeoPostGraph.Lib.KeyedTable

/-!
# Reading a table of entries while its rows change

A lookup that finds no entry reads the row of its key as it is; one that finds an entry reads what was
entered there, whatever has become of the row since.

* `Probe.read`: what the entry a lookup ends at holds.
* `remove`, `flush`: an entry is removed by a key, all entries are removed by their own keys.

Results:
* `Probe.read_of_miss`, `Probe.read_cases`: where the row that is read comes from.
* `Probe.mem_search`: what a lookup leaves in the table.
* `readBy_eq`, `key_of_mem_step`, `row_of_mem_step`: the same for the calls of a state with such a table.
* `flush_eq`: a flush leaves nothing.
-/

namespace KeyedTable

variable {κ σ ρ : Type} {row : κ → Option ρ} {t : List (σ × ρ)} {p : Probe κ σ ρ} {e : σ × ρ} {i : Nat}

/-- What the entry a lookup ends at holds. -/
def Probe.read (row : κ → Option ρ) (p : Probe κ σ ρ) (t : List (σ × ρ)) : Option ρ :=
  let x := p.search row t
  (x.1.bind fun i => x.2[i]?).map Prod.snd

/-! ## Entering a row -/

/-- The entry that is written has the row. -/
theorem enter_get (q : σ → Bool) (s : σ) (r : ρ) (t : List (σ × ρ)) :
    ((enter q s r t).2[(enter q s r t).1]?).map Prod.snd = some r := by
  unfold enter
  cases hf : find q t with
  | some i =>
    have hlt : i < t.length := (List.findIdx?_eq_some_iff_getElem.mp hf).1
    simp [hlt]
  | none => simp

/-- The other entries are as they were. The one that is written keeps its key, or it is new. -/
theorem mem_enter {q : σ → Bool} {s : σ} {r : ρ} (he : e ∈ (enter q s r t).2) :
    e ∈ t ∨ e.2 = r ∧ (e.1 = s ∨ e.1 ∈ t.map Prod.fst) := by
  unfold enter at he
  cases hf : find q t with
  | some i =>
    rw [hf] at he
    obtain ⟨j, hj⟩ := List.mem_iff_getElem?.mp he
    rw [List.getElem?_modify] at hj
    obtain ⟨e', he', hj⟩ := Option.map_eq_some_iff.mp hj
    split_ifs at hj with hij
    · subst hj
      exact Or.inr ⟨rfl, Or.inr (List.mem_map.mpr ⟨e', List.mem_of_getElem? he', rfl⟩)⟩
    · subst hj
      exact Or.inl (List.mem_of_getElem? he')
  | none =>
    rw [hf] at he
    rcases List.mem_append.mp he with hold | hnew
    · exact Or.inl hold
    · rw [List.mem_singleton.mp hnew]
      exact Or.inr ⟨rfl, Or.inl rfl⟩

/-! ## Lookups -/

/-- **A lookup that no entry answers reads the row as it is.** -/
theorem Probe.read_of_miss (h : ∀ e ∈ t, p.hits e.1 e.2 = false) : p.read row t = row p.key := by
  have hf : (t.findIdx? fun e => p.hits e.1 e.2) = none := List.findIdx?_eq_none_iff.mpr h
  unfold Probe.read Probe.search
  rw [hf]
  cases hr : row p.key with
  | none => rfl
  | some r => exact enter_get p.enters p.stored r t

/-- **A lookup reads the row as it is, or an entry that answers.** -/
theorem Probe.read_cases (p : Probe κ σ ρ) (t : List (σ × ρ)) : p.read row t = row p.key ∨
    ∃ e ∈ t, p.hits e.1 e.2 = true ∧ p.read row t = some e.2 := by
  cases hf : t.findIdx? fun e => p.hits e.1 e.2 with
  | none => exact Or.inl (Probe.read_of_miss (List.findIdx?_eq_none_iff.mp hf))
  | some i =>
    obtain ⟨hlt, hhit, -⟩ := List.findIdx?_eq_some_iff_getElem.mp hf
    refine Or.inr ⟨t[i], List.getElem_mem hlt, hhit, ?_⟩
    unfold Probe.read Probe.search
    simp [hf, hlt]

/-- What a lookup leaves in the table. -/
theorem Probe.mem_search (he : e ∈ (p.search row t).2) : e ∈ t ∨
    row p.key = some e.2 ∧ (e.1 = p.stored ∨ e.1 ∈ t.map Prod.fst) := by
  unfold Probe.search at he
  cases hf : t.findIdx? fun e => p.hits e.1 e.2 with
  | some i =>
    rw [hf] at he
    exact Or.inl he
  | none =>
    rw [hf] at he
    cases hr : row p.key with
    | none =>
      rw [hr] at he
      exact Or.inl he
    | some r =>
      rw [hr] at he
      exact (mem_enter he).imp_right fun ⟨hrow, hkey⟩ => ⟨by rw [hrow], hkey⟩

/-- The keys after a lookup are those before and the one it enters under. -/
theorem Probe.key_of_mem_search (he : e ∈ (p.search row t).2) :
    e.1 = p.stored ∨ e.1 ∈ t.map Prod.fst := by
  rcases Probe.mem_search he with hold | ⟨-, hkey⟩
  · exact Or.inr (List.mem_map_of_mem hold)
  · exact hkey

section

variable {S C : Type} {step : C → S → Option Nat × S} {tbl : S → List (σ × ρ)}
  {probe : C → Option (Probe κ σ ρ)}

/-- What the entry a call ends at holds. -/
def readBy (step : C → S → Option Nat × S) (tbl : S → List (σ × ρ)) (c : C) (s : S) : Option ρ :=
  let x := step c s
  (x.1.bind fun i => (tbl x.2)[i]?).map Prod.snd

/-- A call that looks up the table reads what its probe does. -/
theorem readBy_eq (hl : LooksUp row step tbl probe) {c : C} {s : S} (hp : probe c = some p) :
    readBy step tbl c s = p.read row (tbl s) := by
  have hc := hl c s
  rw [hp] at hc
  unfold readBy Probe.read
  dsimp only
  rw [hc.1, hc.2]

/-- The keys after a call are those before and the one its probe enters under. -/
theorem key_of_mem_step (hl : LooksUp row step tbl probe) {c : C} {s : S} (he : e ∈ tbl (step c s).2) :
    (∃ p, probe c = some p ∧ p.stored = e.1) ∨ e.1 ∈ (tbl s).map Prod.fst := by
  have hc := hl c s
  cases hp : probe c with
  | none =>
    rw [hp] at hc
    rw [hc] at he
    exact Or.inr (List.mem_map_of_mem he)
  | some p =>
    rw [hp] at hc
    rw [hc.2] at he
    exact (Probe.key_of_mem_search he).imp_left fun hkey => ⟨p, rfl, hkey.symm⟩

/-- The entries after a call are those before and one of its probe's row. -/
theorem row_of_mem_step (hl : LooksUp row step tbl probe) {c : C} {s : S} (he : e ∈ tbl (step c s).2) :
    e ∈ tbl s ∨ ∃ p, probe c = some p ∧ row p.key = some e.2 := by
  have hc := hl c s
  cases hp : probe c with
  | none =>
    rw [hp] at hc
    rw [hc] at he
    exact Or.inl he
  | some p =>
    rw [hp] at hc
    rw [hc.2] at he
    exact (Probe.mem_search he).imp_right fun h => ⟨p, rfl, h.1⟩

end

/-! ## Removing entries -/

/-- Remove the first entry that answers, if there is one. -/
def remove (p : σ → Bool) (t : List (σ × ρ)) : List (σ × ρ) := t.eraseP fun e => p e.1

/-- Remove every entry by its own key, in the order of the table; nothing when one is not found. -/
def flush (answers : σ → σ → Bool) (t : List (σ × ρ)) : Option (List (σ × ρ)) :=
  t.foldlM (fun left e => (find (answers e.1) left).map left.eraseIdx) t

theorem remove_eq_self {q : σ → Bool} (h : ∀ e ∈ t, q e.1 = false) : remove q t = t :=
  List.eraseP_of_forall_not fun e he => by simp [h e he]

theorem mem_of_mem_remove {q : σ → Bool} (he : e ∈ remove q t) : e ∈ t := List.mem_of_mem_eraseP he

/-- **A flush leaves nothing**: whatever has been visited is gone, so that the next entry is the first that
answers to its own key. -/
theorem flush_eq {answers : σ → σ → Bool} (h : ∀ s, answers s s = true) (t : List (σ × ρ)) :
    flush answers t = some [] := by
  unfold flush
  induction t with
  | nil => rfl
  | cons e rest ih =>
    have hfirst : find (answers e.1) (e :: rest) = some 0 := by
      unfold find
      simp [List.findIdx?_cons, h]
    rw [List.foldlM_cons, hfirst]
    exact ih

end KeyedTable
