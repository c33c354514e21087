import Mathlib.Data.List.Basic
import Mathlib.Data.List.Nodup

/-!
# A table of entries looked up by probes

A table of entries in the order they were made, each with the key it is stored under and a row. A
lookup takes the first entry its probe hits; if there is none, and its own key has a row, it enters
that row: into the first entry that answers to the bytes it enters with, or into a new one. The bytes
it probes with and the bytes it enters with need not be the same.

* `Probe κ σ ρ`: a lookup of the key `key : κ`, for stored keys `σ` and rows `ρ`.
* `Probe.search`: the entry it ends at, and the table after it. `row` gives the rows of the keys.
* `Owners`, `Probe.owners`: for each key that has a row and was looked up, what its first lookup stores
  it under. They are computed from the lookups alone.
* `Apart row own ps`: no lookup hits an entry that another key's first lookup stored, and one that
  enters its row finds the entry of its own key, or none.

Results:
* `run_keyed`: lookups that are apart end at the entry of their own key, which stays its own.
-/

namespace KeyedTable

/-- A lookup. -/
structure Probe (κ σ ρ : Type) where
  key : κ
  /-- Whether an entry answers the lookup. -/
  hits : σ → ρ → Bool
  /-- Whether an entry answers to the bytes the lookup enters its row with. -/
  enters : σ → Bool
  /-- What a new entry is stored under. -/
  stored : σ

/-- The first entry stored under a key that answers. -/
def find {σ ρ : Type} (p : σ → Bool) (t : List (σ × ρ)) : Option Nat := t.findIdx? fun e => p e.1

/-- Enter a row: overwrite the first entry that answers, or make a new one. -/
def enter {σ ρ : Type} (p : σ → Bool) (stored : σ) (r : ρ) (t : List (σ × ρ)) :
    Nat × List (σ × ρ) :=
  match find p t with
  | some i => (i, t.modify i fun e => (e.1, r))
  | none => (t.length, t ++ [(stored, r)])

variable {κ σ ρ : Type} (row : κ → Option ρ)

/-- The entry of a lookup and the table after it. -/
def Probe.search (p : Probe κ σ ρ) (t : List (σ × ρ)) : Option Nat × List (σ × ρ) :=
  match t.findIdx? fun e => p.hits e.1 e.2 with
  | some i => (some i, t)
  | none =>
    match row p.key with
    | none => (none, t)
    | some r =>
      let (i, t') := enter p.enters p.stored r t
      (some i, t')

/-- What the first lookups of the keys stored them under, in order. -/
abbrev Owners (κ σ : Type) := List (κ × σ)

/-- The entry of a key answers the lookup. -/
def Probe.hitsOwner (p : Probe κ σ ρ) (e : κ × σ) : Bool := (row e.1).any (p.hits e.2)

section

variable [DecidableEq κ]

/-- The keys stored, after one more lookup. -/
def Probe.owners (p : Probe κ σ ρ) (own : Owners κ σ) : Owners κ σ :=
  if (row p.key).isNone ∨ p.key ∈ own.map Prod.fst then own else own ++ [(p.key, p.stored)]

/-- A lookup that keeps to the entry of its own key. -/
def Probe.Apart (p : Probe κ σ ρ) (own : Owners κ σ) : Prop :=
  (∀ e ∈ own, p.hitsOwner row e = true → e.1 = p.key) ∧
    ((row p.key).isNone = true ∨ (∃ e ∈ own, p.hitsOwner row e = true) ∨
      ∀ e ∈ own, p.enters e.2 = true ↔ e.1 = p.key)

/-- Lookups that all keep to the entries of their own keys. -/
def Apart : Owners κ σ → List (Probe κ σ ρ) → Prop
  | _, [] => True
  | own, p :: ps => p.Apart row own ∧ Apart (p.owners row own) ps

instance (p : Probe κ σ ρ) (own : Owners κ σ) : Decidable (p.Apart row own) :=
  inferInstanceAs (Decidable (_ ∧ (_ ∨ _ ∨ _)))

instance decidableApart : ∀ (own : Owners κ σ) (ps : List (Probe κ σ ρ)),
    Decidable (Apart row own ps)
  | _, [] => isTrue trivial
  | own, p :: ps =>
    let _ := decidableApart (p.owners row own) ps
    inferInstanceAs (Decidable (_ ∧ _))

end

/-- The table has one entry for each key, with its row. -/
structure Keyed (own : Owners κ σ) (t : List (σ × ρ)) : Prop where
  table : (t.map fun e => (e.1, some e.2)) = own.map fun e => (e.2, row e.1)
  nodup : (own.map Prod.fst).Nodup

variable {row} {own : Owners κ σ} {t : List (σ × ρ)} {p : Probe κ σ ρ} {i : Nat}

theorem keyed_nil : Keyed row ([] : Owners κ σ) [] := ⟨rfl, List.nodup_nil⟩

theorem Keyed.length_eq (h : Keyed row own t) : t.length = own.length := by
  simpa using congrArg List.length h.table

/-- Searching the table is searching the keys. -/
theorem Keyed.findIdx?_eq (h : Keyed row own t) (q : σ → ρ → Bool) :
    (t.findIdx? fun e => q e.1 e.2) = own.findIdx? fun e => (row e.1).any (q e.2) := by
  have hmap := congrArg (List.findIdx? fun e : σ × Option ρ => e.2.any (q e.1)) h.table
  rw [List.findIdx?_map, List.findIdx?_map] at hmap
  exact hmap

/-- What a place holds. -/
theorem Keyed.get (h : Keyed row own t) {k : κ} (hi : (own.map Prod.fst)[i]? = some k) :
    ∃ s r, t[i]? = some (s, r) ∧ row k = some r := by
  rw [List.getElem?_map] at hi
  obtain ⟨e, he, rfl⟩ := Option.map_eq_some_iff.mp hi
  have htbl := congrArg (fun l => l[i]?) h.table
  rw [List.getElem?_map, List.getElem?_map, he] at htbl
  obtain ⟨⟨s, r⟩, hsr, heq⟩ := Option.map_eq_some_iff.mp htbl
  exact ⟨s, r, hsr, (congrArg Prod.snd heq).symm⟩

/-- Two places are the same exactly when their keys are. -/
theorem Keyed.place_eq_iff (h : Keyed row own t) {j : Nat} {k l : κ}
    (hi : (own.map Prod.fst)[i]? = some k) (hj : (own.map Prod.fst)[j]? = some l) :
    i = j ↔ k = l := by
  constructor
  · rintro rfl
    exact Option.some.inj (hi.symm.trans hj)
  · rintro rfl
    exact (List.getElem?_inj (List.getElem?_eq_some_iff.mp hi).1 h.nodup).mp (hi.trans hj.symm)

/-- A key that has an entry has a row. -/
theorem Keyed.row_of_mem (h : Keyed row own t) {k : κ} (hk : k ∈ own.map Prod.fst) :
    (row k).isNone = false := by
  obtain ⟨i, hi⟩ := List.mem_iff_getElem?.mp hk
  obtain ⟨s, r, -, hr⟩ := h.get hi
  rw [hr]
  rfl

/-- The entry found is that of the key all entries that answer belong to. -/
theorem place_of_findIdx {q : κ × σ → Bool} {k : κ} (hq : ∀ e ∈ own, q e = true → e.1 = k)
    (hi : own.findIdx? q = some i) : (own.map Prod.fst)[i]? = some k := by
  obtain ⟨hlt, hhit, -⟩ := List.findIdx?_eq_some_iff_getElem.mp hi
  rw [List.getElem?_map, List.getElem?_eq_getElem hlt, Option.map_some, Option.some.injEq]
  exact hq _ (List.getElem_mem hlt) hhit

/-- Rewriting an entry with its own row changes nothing. -/
theorem Keyed.modify_own (h : Keyed row own t) {k : κ} {r : ρ}
    (hi : (own.map Prod.fst)[i]? = some k) (hr : row k = some r) :
    (t.modify i fun e => (e.1, r)) = t := by
  obtain ⟨s, r', hsr, hr'⟩ := h.get hi
  obtain rfl := Option.some.inj (hr'.symm.trans hr)
  refine List.ext_getElem? fun j => ?_
  rw [List.getElem?_modify]
  split_ifs with hij
  · subst hij
    rw [hsr]
    rfl
  · simp

section

variable [DecidableEq κ]

/-- **A lookup that keeps to its own entry** leaves one entry for each key, and ends at that of its
own, if it ends at one. -/
theorem Keyed.search (h : Keyed row own t) (ha : p.Apart row own) :
    Keyed row (p.owners row own) (p.search row t).2 ∧ ∀ i, (p.search row t).1 = some i →
      ((p.owners row own).map Prod.fst)[i]? = some p.key := by
  obtain ⟨hhits, hsecond⟩ := ha
  have hfind : (t.findIdx? fun e => p.hits e.1 e.2) = own.findIdx? (p.hitsOwner row) :=
    h.findIdx?_eq p.hits
  unfold Probe.search
  rw [hfind]
  cases hf : own.findIdx? (p.hitsOwner row) with
  | some i =>
    have hi := place_of_findIdx hhits hf
    have hmem : p.key ∈ own.map Prod.fst := List.mem_of_getElem? hi
    unfold Probe.owners
    rw [if_pos (Or.inr hmem)]
    refine ⟨h, fun j hj => ?_⟩
    obtain rfl := Option.some.inj hj
    exact hi
  | none =>
    have hnone := List.findIdx?_eq_none_iff.mp hf
    cases hr : row p.key with
    | none =>
      unfold Probe.owners
      rw [if_pos (Or.inl (by rw [hr]; rfl))]
      exact ⟨h, fun j hj => by cases hj⟩
    | some r =>
      have henters : ∀ e ∈ own, p.enters e.2 = true ↔ e.1 = p.key := by
        rcases hsecond with hn | ⟨e, he, hhit⟩ | he
        · rw [hr] at hn
          cases hn
        · rw [hnone e he] at hhit
          cases hhit
        · exact he
      have henter : find p.enters t = own.findIdx? fun e => (row e.1).any fun _ => p.enters e.2 :=
        h.findIdx?_eq fun s _ => p.enters s
      dsimp only
      unfold enter
      rw [henter]
      cases hg : own.findIdx? fun e => (row e.1).any fun _ => p.enters e.2 with
      | some i =>
        have hi := place_of_findIdx (k := p.key) (fun e he hany => by
          obtain ⟨_, -, hent⟩ := Option.any_eq_true _ _ |>.mp hany
          exact (henters e he).mp hent) hg
        have hmem : p.key ∈ own.map Prod.fst := List.mem_of_getElem? hi
        unfold Probe.owners
        rw [if_pos (Or.inr hmem)]
        dsimp only
        rw [h.modify_own hi hr]
        refine ⟨h, fun j hj => ?_⟩
        obtain rfl := Option.some.inj hj
        exact hi
      | none =>
        -- the first lookup of the key
        have hno := List.findIdx?_eq_none_iff.mp hg
        have hmem : p.key ∉ own.map Prod.fst := by
          intro hmem
          have hrow := h.row_of_mem hmem
          obtain ⟨e, he, hk⟩ := List.mem_map.mp hmem
          have hany := hno e he
          rw [hk, hr] at hany
          exact absurd ((henters e he).mpr hk) (by simpa using hany)
        unfold Probe.owners
        rw [if_neg (by rw [hr]; simpa using hmem)]
        refine ⟨⟨?_, ?_⟩, fun j hj => ?_⟩
        · rw [List.map_append, List.map_append, h.table, List.map_singleton, List.map_singleton, hr]
        · rw [List.map_append, List.nodup_append]
          refine ⟨h.nodup, by simp, fun a ha b hb hab => hmem ?_⟩
          have hk : b = p.key := by simpa using hb
          rw [← hk, ← hab]
          exact ha
        · obtain rfl := Option.some.inj hj
          have hlen : t.length = (own.map Prod.fst).length := by
            rw [h.length_eq, List.length_map]
          rw [List.map_append, hlen]
          exact List.getElem?_concat_length

/-- A key keeps its entry. -/
theorem owners_getElem? {k : κ} (p : Probe κ σ ρ) (hi : (own.map Prod.fst)[i]? = some k) :
    ((p.owners row own).map Prod.fst)[i]? = some k := by
  unfold Probe.owners
  split_ifs
  · exact hi
  · rw [List.map_append]
    rw [List.getElem?_append_left (List.getElem?_eq_some_iff.mp hi).1]
    exact hi

end

/-! ## Runs on a state with such a table -/

section

variable {S C : Type}

/-- The calls, one after the other, and what each of them returned. -/
def run (step : C → S → Option Nat × S) : List C → S → List (C × Nat) × S
  | [], s => ([], s)
  | c :: cs, s =>
    let x := step c s
    let rest := run step cs x.2
    ((x.1.toList.map fun i => (c, i)) ++ rest.1, rest.2)

/-- Calls that look up the table `tbl` as `probe` says, or leave it alone. -/
def LooksUp (row : κ → Option ρ) (step : C → S → Option Nat × S) (tbl : S → List (σ × ρ))
    (probe : C → Option (Probe κ σ ρ)) : Prop :=
  ∀ c s, match probe c with
    | some p => (step c s).1 = (p.search row (tbl s)).1 ∧
        tbl (step c s).2 = (p.search row (tbl s)).2
    | none => tbl (step c s).2 = tbl s

variable [DecidableEq κ] {step : C → S → Option Nat × S} {tbl : S → List (σ × ρ)}
  {probe : C → Option (Probe κ σ ρ)}

/-- **Lookups that are apart end at the entry of their own key**, and it stays the entry of that key:
after the run the table has one entry for each key, and each place returned is that of its key. -/
theorem run_keyed (hl : LooksUp row step tbl probe) {cs : List C} {s : S} {own : Owners κ σ}
    (h : Keyed row own (tbl s)) (ha : Apart row own (cs.filterMap probe)) :
    ∃ own', Keyed row own' (tbl (run step cs s).2) ∧
      (∀ (i : Nat) (k : κ), (own.map Prod.fst)[i]? = some k → (own'.map Prod.fst)[i]? = some k) ∧
      ∀ x ∈ (run step cs s).1, ∀ p, probe x.1 = some p →
        (own'.map Prod.fst)[x.2]? = some p.key := by
  induction cs generalizing s own with
  | nil => exact ⟨own, h, fun _ _ hi => hi, fun x hx => absurd hx List.not_mem_nil⟩
  | cons c cs ih =>
    have hc := hl c s
    cases hp : probe c with
    | none =>
      rw [hp] at hc
      rw [List.filterMap_cons_none hp] at ha
      obtain ⟨own', hkeyed, hkeep, hplaces⟩ := ih (by rw [hc]; exact h) ha
      refine ⟨own', hkeyed, hkeep, fun x hx p hx' => ?_⟩
      rcases List.mem_append.mp hx with hx | hx
      · -- a call that is no lookup of this table
        obtain ⟨i, -, rfl⟩ := List.mem_map.mp hx
        rw [hp] at hx'
        cases hx'
      · exact hplaces x hx p hx'
    | some p =>
      rw [hp] at hc
      rw [List.filterMap_cons_some hp] at ha
      obtain ⟨hplace, htbl⟩ := hc
      obtain ⟨hkeyed₁, hat⟩ := h.search ha.1
      obtain ⟨own', hkeyed, hkeep, hplaces⟩ := ih (by rw [htbl]; exact hkeyed₁) ha.2
      refine ⟨own', hkeyed, fun i k hi => hkeep i k (owners_getElem? p hi), fun x hx q hq => ?_⟩
      rcases List.mem_append.mp hx with hx | hx
      · obtain ⟨i, hi, rfl⟩ := List.mem_map.mp hx
        obtain rfl := Option.some.inj (hp.symm.trans hq)
        rw [hplace, Option.mem_toList] at hi
        exact hkeep _ _ (hat i hi)
      · exact hplaces x hx q hq

end

end KeyedTable
