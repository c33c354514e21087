import Mathlib.Logic.Function.Basic

/-!
# One record with several writers

A record of fields, shared by writers that each own one field. A writer either writes its field in
place, or copies the whole record first and later writes the whole copy back with its field changed.
The write back also puts the other fields back to what they were when the copy was made.

* `RecordEvent ι F V`: what a writer `i : ι` does to a record with a value `V f` for each field `f`.
* `recordRun st es`: the record and the copies after the events.
* `lastWritten r es`: for each field the last value its owners gave it, in place or in a copy.
* `Undisturbed f s es`: whenever a writer of another field writes its copy back, nobody has given `f`
  a value since it made the copy. `s` says for which copies that is already so.

Results:
* `field_last_written`: the record then has the last value written to `f`.
-/

/-- What happens at a shared record. -/
inductive RecordEvent (ι F : Type) (V : F → Type) where
  /-- The writer copies the record. -/
  | copy (i : ι)
  /-- The writer writes its copy back, with its field changed. -/
  | writeBack (i : ι) (f : F) (v : V f)
  /-- A field is written in place. -/
  | write (f : F) (v : V f)

namespace SharedRecord

variable {ι F : Type} {V : F → Type} [DecidableEq ι] [DecidableEq F]

/-- The record, and the copy each writer holds. -/
structure State (ι F : Type) (V : F → Type) where
  record : ∀ f, V f
  copies : ι → ∀ f, V f

/-- One event. -/
def State.step (st : State ι F V) : RecordEvent ι F V → State ι F V
  | .copy i => { st with copies := Function.update st.copies i st.record }
  | .writeBack i f v => { st with record := Function.update (st.copies i) f v }
  | .write f v => { st with record := Function.update st.record f v }

/-- The record and the copies after some events. -/
def recordRun (st : State ι F V) (es : List (RecordEvent ι F V)) : State ι F V :=
  es.foldl State.step st

/-- The value an event gives a field. -/
def writtenStep (r : ∀ f, V f) : RecordEvent ι F V → ∀ f, V f
  | .copy _ => r
  | .writeBack _ f v | .write f v => Function.update r f v

/-- The last value of each field. -/
def lastWritten (r : ∀ f, V f) (es : List (RecordEvent ι F V)) : ∀ f, V f := es.foldl writtenStep r

/-- Which fields have been written since a writer made its copy. -/
abbrev Stale (ι F : Type) := ι → F → Bool

/-- One event. -/
def staleStep (s : Stale ι F) : RecordEvent ι F V → Stale ι F
  | .copy i => Function.update s i fun _ => false
  | .writeBack _ f _ | .write f _ => fun i g => s i g || decide (g = f)

/-- Nobody writes `f` while a writer of another field holds a copy that it writes back. -/
def Undisturbed (f : F) : Stale ι F → List (RecordEvent ι F V) → Prop
  | _, [] => True
  | s, .writeBack i g v :: es =>
    (g ≠ f → s i f = false) ∧ Undisturbed f (staleStep s (.writeBack i g v)) es
  | s, e :: es => Undisturbed f (staleStep s e) es

instance decidableUndisturbed (f : F) : ∀ (s : Stale ι F) (es : List (RecordEvent ι F V)),
    Decidable (Undisturbed f s es)
  | _, [] => isTrue trivial
  | s, .copy i :: es => decidableUndisturbed f (staleStep s (.copy i)) es
  | s, .writeBack i g v :: es =>
    let _ := decidableUndisturbed f (staleStep s (.writeBack i g v)) es
    inferInstanceAs (Decidable ((g ≠ f → s i f = false) ∧ _))
  | s, .write g v :: es => decidableUndisturbed f (staleStep s (.write g v)) es

/-- The record has the last value of `f`, and so has every copy that is not stale there. -/
structure Fresh (f : F) (s : Stale ι F) (st : State ι F V) (last : ∀ f, V f) : Prop where
  record : st.record f = last f
  copies : ∀ i, s i f = false → st.copies i f = last f

section

variable {f : F} {s : Stale ι F} {st : State ι F V} {last : ∀ f, V f}

theorem Fresh.copy (h : Fresh f s st last) (i : ι) :
    Fresh f (staleStep s (.copy i : RecordEvent ι F V)) (st.step (.copy i)) last := by
  refine ⟨h.record, fun j hj => ?_⟩
  by_cases hij : j = i
  · subst hij
    exact (congrFun (Function.update_self ..) f).trans h.record
  · have hs : s j f = false := by simpa [staleStep, hij] using hj
    exact (congrFun (Function.update_of_ne hij ..) f).trans (h.copies j hs)

omit [DecidableEq ι] in
/-- The copies that are not stale after a field got a value: the field is another one. -/
theorem Fresh.copies_written (h : Fresh f s st last) {g : F} {v : V g} {i : ι}
    (hi : (s i f || decide (f = g)) = false) :
    st.copies i f = Function.update last g v f := by
  simp only [Bool.or_eq_false_iff, decide_eq_false_iff_not] at hi
  rw [Function.update_of_ne hi.2]
  exact h.copies i hi.1

theorem Fresh.write (h : Fresh f s st last) (g : F) (v : V g) :
    Fresh f (staleStep s (.write g v : RecordEvent ι F V)) (st.step (.write g v))
      (Function.update last g v) := by
  refine ⟨?_, fun i hi => h.copies_written hi⟩
  show Function.update st.record g v f = _
  by_cases hf : f = g
  · subst hf
    rw [Function.update_self, Function.update_self]
  · rw [Function.update_of_ne hf, Function.update_of_ne hf, h.record]

theorem Fresh.writeBack (h : Fresh f s st last) (i : ι) (g : F) (v : V g)
    (hs : g ≠ f → s i f = false) :
    Fresh f (staleStep s (.writeBack i g v)) (st.step (.writeBack i g v))
      (Function.update last g v) := by
  refine ⟨?_, fun j hj => h.copies_written hj⟩
  show Function.update (st.copies i) g v f = _
  by_cases hf : f = g
  · subst hf
    rw [Function.update_self, Function.update_self]
  · rw [Function.update_of_ne hf, Function.update_of_ne hf, h.copies i (hs (Ne.symm hf))]

/-- **A field nobody disturbs has the last value written to it.** -/
theorem Fresh.run {es : List (RecordEvent ι F V)} (h : Fresh f s st last)
    (hu : Undisturbed f s es) : (recordRun st es).record f = lastWritten last es f := by
  induction es generalizing s st last with
  | nil => exact h.record
  | cons e es ih =>
    cases e with
    | copy i => exact ih (h.copy i) hu
    | writeBack i g v => exact ih (h.writeBack i g v hu.1) hu.2
    | write g v => exact ih (h.write g v) hu

/-- The state before the first event. -/
def start (r : ∀ f, V f) : State ι F V := ⟨r, fun _ => r⟩

/-- No copy is stale. -/
def noneStale : Stale ι F := fun _ _ => false

theorem field_last_written {r : ∀ f, V f} {es : List (RecordEvent ι F V)}
    (h : Undisturbed f noneStale es) : (recordRun (start r) es).record f = lastWritten r es f :=
  Fresh.run ⟨rfl, fun _ _ => rfl⟩ h

end

end SharedRecord
