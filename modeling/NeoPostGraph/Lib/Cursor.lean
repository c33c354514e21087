import Mathlib.Data.List.Basic

/-!
# Cursors

A cursor is a state and a function that returns the next item, or none at the end. `ahead` says which
items a state has still to return; a call returns the first and leaves the others.

* `Cursor.calls`, `Cursor.loop`: calls until there is no more, and with something done for each item.
* `Cursor.Delivers next ok ahead`: from the states that are `ok`, a call returns the first item ahead.
* `Cursor.sift`: calls until an item is kept, where items may be skipped, or end the scan.

Results:
* `Delivers.calls`: calls until there is no more return all that is ahead.
* `loop_eq`: with something done for each item they are a fold over it.
* `Delivers.sift`: a sifted cursor delivers what is sifted.
* `sifted_eq_filter`: which is what is kept, where nothing behind an item that ends the scan is.
-/

namespace Cursor

variable {σ α β : Type} {next : σ → Option α × σ} {ok : σ → Prop} {ahead : σ → List α} {s : σ}

/-- Calls until there is no more. -/
def calls (next : σ → Option α × σ) : Nat → σ → List α
  | 0, _ => []
  | fuel + 1, s =>
    match next s with
    | (some a, s') => a :: calls next fuel s'
    | (none, _) => []

/-- Calls until there is no more, with something done for each item. -/
def loop (next : σ → Option α × σ) (f : β → α → β) : Nat → σ → β → β
  | 0, _, b => b
  | fuel + 1, s, b =>
    match next s with
    | (some a, s') => loop next f fuel s' (f b a)
    | (none, _) => b

/-- A call returns the first item ahead, and leaves the others. -/
def Delivers (next : σ → Option α × σ) (ok : σ → Prop) (ahead : σ → List α) : Prop :=
  ∀ s, ok s → ∃ s', next s = ((ahead s).head?, s') ∧ ok s' ∧ (ahead s ≠ [] → ahead s' = (ahead s).tail)

/-- **Calls until there is no more return all that is ahead.** -/
theorem Delivers.calls (h : Delivers next ok ahead) {fuel : Nat} (hfuel : (ahead s).length < fuel)
    (hok : ok s) : calls next fuel s = ahead s := by
  induction fuel generalizing s with
  | zero => omega
  | succ fuel ih =>
    obtain ⟨s', hnext, hok', htail⟩ := h s hok
    unfold Cursor.calls
    rw [hnext]
    cases hs : ahead s with
    | nil => rfl
    | cons a l =>
      rw [hs] at hfuel htail
      have hrest : ahead s' = l := htail (List.cons_ne_nil a l)
      rw [List.length_cons] at hfuel
      show a :: Cursor.calls next fuel s' = a :: l
      rw [ih (by rw [hrest]; omega) hok', hrest]

theorem loop_eq (next : σ → Option α × σ) (f : β → α → β) (fuel : Nat) (s : σ) (b : β) :
    loop next f fuel s b = (Cursor.calls next fuel s).foldl f b := by
  induction fuel generalizing s b with
  | zero => rfl
  | succ fuel ih =>
    unfold loop Cursor.calls
    rcases next s with ⟨_ | a, s'⟩
    · rfl
    · exact ih s' (f b a)

/-- Another value for each item. -/
theorem Delivers.filterMap (h : Delivers next ok ahead) (f : α → Option β)
    (hf : ∀ s a, ok s → a ∈ ahead s → ∃ b, f a = some b) :
    Delivers (fun s => ((next s).1.bind f, (next s).2)) ok fun s => (ahead s).filterMap f := by
  intro s hok
  obtain ⟨s', hnext, hok', htail⟩ := h s hok
  refine ⟨s', ?_, hok', ?_⟩
  all_goals
    cases hs : ahead s with
    | nil => simp [hnext, hs]
    | cons a l =>
      obtain ⟨b, hb⟩ := hf s a hok (by rw [hs]; exact List.mem_cons_self)
      rw [hs] at htail
      simp [hnext, hs, hb, htail]

/-! ## Sifted cursors -/

/-- What becomes of an item. -/
inductive Verdict where
  | keep
  | skip
  | stop
deriving DecidableEq, Repr

/-- Calls until an item is kept or ends the scan. -/
def sift (next : σ → Option α × σ) (judge : α → Verdict) : Nat → σ → Option α × σ
  | 0, s => (none, s)
  | fuel + 1, s =>
    match next s with
    | (none, s') => (none, s')
    | (some a, s') =>
      match judge a with
      | .keep => (some a, s')
      | .skip => sift next judge fuel s'
      | .stop => (none, s')

/-- What is kept of the items ahead, up to the first that ends the scan. -/
def sifted (judge : α → Verdict) : List α → List α
  | [] => []
  | a :: l =>
    match judge a with
    | .keep => a :: sifted judge l
    | .skip => sifted judge l
    | .stop => []

theorem sifted_cons (judge : α → Verdict) (a : α) (l : List α) : sifted judge (a :: l) =
    match judge a with
    | .keep => a :: sifted judge l
    | .skip => sifted judge l
    | .stop => [] := rfl

theorem length_sifted_le (judge : α → Verdict) (l : List α) : (sifted judge l).length ≤ l.length := by
  induction l with
  | nil => exact Nat.le_refl _
  | cons a l ih =>
    rw [sifted_cons, List.length_cons]
    cases judge a with
    | keep => exact Nat.succ_le_succ ih
    | skip => exact Nat.le_succ_of_le ih
    | stop => exact Nat.zero_le _

/-- **A sifted cursor delivers what is sifted.** -/
theorem Delivers.sift (h : Delivers next ok ahead) (judge : α → Verdict) {fuel : Nat}
    (hfuel : ∀ s, ok s → (ahead s).length < fuel) :
    Delivers (sift next judge fuel) ok fun s => sifted judge (ahead s) := by
  have hloop : ∀ n s, ok s → (ahead s).length < n → ∃ s', Cursor.sift next judge n s =
      ((sifted judge (ahead s)).head?, s') ∧ ok s' ∧
        (sifted judge (ahead s) ≠ [] → sifted judge (ahead s') = (sifted judge (ahead s)).tail) := by
    intro n
    induction n with
    | zero =>
      intro s _ hn
      omega
    | succ n ih =>
      intro s hok hn
      obtain ⟨s', hnext, hok', htail⟩ := h s hok
      unfold Cursor.sift
      rw [hnext]
      cases hs : ahead s with
      | nil => exact ⟨s', rfl, hok', fun hne => absurd rfl hne⟩
      | cons a l =>
        rw [hs] at htail hn
        have hrest : ahead s' = l := htail (List.cons_ne_nil a l)
        rw [List.length_cons] at hn
        rw [sifted_cons]
        dsimp only [List.head?_cons]
        cases hj : judge a with
        | keep => exact ⟨s', rfl, hok', fun _ => by rw [hrest]; rfl⟩
        | skip =>
          have hrec := ih s' hok' (by rw [hrest]; omega)
          rw [hrest] at hrec
          exact hrec
        | stop => exact ⟨s', rfl, hok', fun hne => absurd rfl hne⟩
  intro s hok
  exact hloop fuel s hok (hfuel s hok)

/-- **What is sifted is what is kept**, where nothing behind an item that ends the scan is. -/
theorem sifted_eq_filter {judge : α → Verdict} {l : List α}
    (h : l.Pairwise fun a b => judge a = .stop → judge b ≠ .keep) :
    sifted judge l = l.filter fun a => judge a = .keep := by
  induction h with
  | nil => rfl
  | @cons a l hstop _ ih =>
    rw [sifted_cons]
    cases hj : judge a with
    | keep =>
      rw [List.filter_cons_of_pos (by rw [hj]; rfl)]
      exact congrArg (a :: ·) ih
    | skip =>
      rw [List.filter_cons_of_neg (by rw [hj]; decide)]
      exact ih
    | stop =>
      rw [List.filter_cons_of_neg (by rw [hj]; decide)]
      refine (List.filter_eq_nil_iff.mpr fun b hb => ?_).symm
      simpa using hstop b hb hj

end Cursor
