import NeoPostGraph.Gtype.GtypeIn
import NeoPostGraph.Gtype.TextOut
import NeoPostGraph.Lib.Bindings
import Mathlib.Algebra.Order.Group.Nat
import Mathlib.Tactic.Ring

/-!
# The value of a text

What the callbacks of `gtype_in` make of a document, without their stack: a value for each tree, from the
values of its parts, or the error that is raised first.

* `GtypeTree.value`: the value of a tree. An object has its last pair of each key.
* `Makes`: what the callbacks do with a tree, whatever container is around it.

Results:
* `uniqueify_numbered`: `uniqueify_gtype_object` leaves the last bindings.
* `makes_value`: the callbacks make the value of a tree.
* `gtypeIn_ok`: what is stored for a text.
-/

namespace NeoPostGraph

/-! ## The pairs of an object -/

instance : DecidableRel KeyLt := fun a b =>
  inferInstanceAs (Decidable (a.length < b.length ∨ a.length = b.length ∧ a < b))

instance : IsStrictTotalOrder (List UInt8) KeyLt where
  trichotomous a b hab hba := by
    by_contra hne
    exact (KeyLt.total hne).elim hab hba
  irrefl := KeyLt.irrefl
  trans _ _ _ := KeyLt.trans

/-- Pairs as they are collected, with their places. -/
def numberedPairs (seq : List (List UInt8 × GtypeValue)) : List GtypePair :=
  seq.zipIdx.map fun p => ⟨p.1.1, p.1.2, p.2⟩

@[simp] theorem length_numberedPairs (seq : List (List UInt8 × GtypeValue)) :
    (numberedPairs seq).length = seq.length := by
  simp [numberedPairs]

theorem numberedPairs_append (seq : List (List UInt8 × GtypeValue)) (p : List UInt8 × GtypeValue) :
    numberedPairs (seq ++ [p]) = numberedPairs seq ++ [⟨p.1, p.2, seq.length⟩] := by
  simp [numberedPairs, List.zipIdx_append]

theorem order_lt_of_mem {seq : List (List UInt8 × GtypeValue)} {p : GtypePair} (h : p ∈ numberedPairs seq) :
    p.order < seq.length := by
  obtain ⟨q, hq, rfl⟩ := List.mem_map.mp h
  exact List.snd_lt_of_mem_zipIdx hq

theorem ownOrder_numberedPairs (seq : List (List UInt8 × GtypeValue)) : OwnOrder (numberedPairs seq) := by
  have hplace : ∀ i, ((numberedPairs seq).get i).order = i.val := by
    unfold numberedPairs
    simp
  intro i j hij
  rw [hplace, hplace] at hij
  exact Fin.ext hij

theorem keys_numberedPairs (seq : List (List UInt8 × GtypeValue)) :
    (numberedPairs seq).map GtypePair.key = seq.map Prod.fst := by
  unfold numberedPairs
  rw [List.map_map]
  have hcomp : (GtypePair.key ∘ fun p : (List UInt8 × GtypeValue) × Nat => ⟨p.1.1, p.1.2, p.2⟩) =
      Prod.fst ∘ Prod.fst := rfl
  rw [hcomp, ← List.map_map, List.zipIdx_map_fst]

/-- The pair with the last place among those of its key is the last binding of the key. -/
theorem lastBinding_of_order {seq : List (List UInt8 × GtypeValue)} {p : GtypePair}
    (h : p ∈ numberedPairs seq) (hmax : ∀ q ∈ numberedPairs seq, q.key = p.key → q.order ≤ p.order) :
    lastBinding seq p.key = some (p.key, p.value) := by
  induction seq using List.reverseRecOn with
  | nil => exact absurd h List.not_mem_nil
  | append_singleton seq q ih =>
    rw [numberedPairs_append] at h hmax
    rw [lastBinding_append]
    rcases List.mem_append.mp h with hold | hnew
    · have hne : q.1 ≠ p.key := fun hkey => by
        have hle := hmax ⟨q.1, q.2, seq.length⟩ (by simp) hkey
        exact Nat.not_le.mpr (order_lt_of_mem hold) hle
      rw [if_neg hne]
      exact ih hold fun q hq => hmax q (List.mem_append_left _ hq)
    · obtain rfl := List.mem_singleton.mp hnew
      rw [if_pos rfl]

/-- **`uniqueify_gtype_object` leaves the last pair of each key**, in the order of the keys. -/
theorem uniqueify_numbered {qsortArg : (n : Nat) → Sorter (Fin n)}
    (hqsort : ∀ n, (qsortArg n).Lawful) (seq : List (List UInt8 × GtypeValue)) :
    (uniqueifyGtypeObject qsortArg (numberedPairs seq)).map (fun p => (p.key, p.value)) =
      lastBindings KeyLt seq := by
  obtain ⟨hsorted, hkeys, hlast⟩ := uniqueifyGtypeObject_compacted (hqsort _) (ownOrder_numberedPairs seq)
  refine eq_lastBindings ?_ (fun p hp => ?_) fun p hp => ?_
  · unfold KeysSorted
    rw [List.pairwise_map]
    exact List.pairwise_map.mp hsorted
  · rw [List.map_map]
    refine (hkeys p.1).mpr ?_
    rw [keys_numberedPairs]
    exact List.mem_map_of_mem hp
  · obtain ⟨q, hq, rfl⟩ := List.mem_map.mp hp
    obtain ⟨hmem, hmax⟩ := hlast q hq
    exact lastBinding_of_order hmem hmax

/-! ## The value of a tree -/

/-- The elements that an array can grow to: for the next doubling `repalloc` is asked for more than
`MaxAllocSize`. -/
def maxBuiltElems : Nat := 16777216

/-- The pairs that an object can grow to. -/
def maxBuiltPairs : Nat := 8388608

/-- There is no room for one element more. -/
def elemsFull : GtypeInErr := .invalidAllocSize (sizeofGtypeValue * (maxBuiltElems * 2))

/-- There is no room for one pair more. -/
def pairsFull : GtypeInErr := .invalidAllocSize (sizeofGtypePair * (maxBuiltPairs * 2))

mutual

/-- **The value of a tree**, or the error that is raised first. -/
def GtypeTree.value (io : ScalarIn) : GtypeTree → Except GtypeInErr GtypeValue
  | .scalar token tokentype annot =>
    (castType tokentype annot).bind fun t => (scalarOfToken io token t).map .scalar
  | .array elems => (elemValues io 0 elems).map (.array false)
  | .object fields => (fieldValues io 0 fields).map fun pairs => .object (lastBindings KeyLt pairs)

/-- The elements, with `num` of them in front. The room for one is made when it is there. -/
def elemValues (io : ScalarIn) (num : Nat) : List GtypeTree → Except GtypeInErr (List GtypeValue)
  | [] => .ok []
  | v :: vs => (v.value io).bind fun val =>
    if num < maxBuiltElems then (elemValues io (num + 1) vs).map (val :: ·) else .error elemsFull

/-- The fields, with `num` of them in front. The room for one is made at its key. -/
def fieldValues (io : ScalarIn) (num : Nat) :
    List (List UInt8 × GtypeTree) → Except GtypeInErr (List (List UInt8 × GtypeValue))
  | [] => .ok []
  | (fname, v) :: fields => (checkStringLength fname).bind fun key =>
    if num < maxBuiltPairs then
      (v.value io).bind fun val => (fieldValues io (num + 1) fields).map ((key, val) :: ·)
    else .error pairsFull

end

/-! ## Arrays that are doubled -/

/-- An array that is doubled has grown to a power of two that holds what is there. -/
def Doubled (most num size : Nat) : Prop := num ≤ size ∧ ∃ k, size * 2 ^ k = most

theorem doubled_start {most : Nat} {k : Nat} (h : 4 * 2 ^ k = most) : Doubled most 0 4 :=
  ⟨Nat.zero_le _, k, h⟩

theorem Doubled.size_le {most num size : Nat} (h : Doubled most num size) : size ≤ most := by
  obtain ⟨-, k, hk⟩ := h
  rw [← hk]
  exact Nat.le_mul_of_pos_right _ (Nat.two_pow_pos k)

theorem Doubled.num_le {most num size : Nat} (h : Doubled most num size) : num ≤ most :=
  Nat.le_trans h.1 h.size_le

/-- It is doubled until it has grown to the most that is allocated, and not beyond. -/
theorem growSize_doubled {w most num size : Nat} (h : Doubled most num size) (hpos : 0 < most)
    (hwidth : w * most ≤ maxAllocSize) (hfull : maxAllocSize < w * (most * 2)) :
    if num < most then ∃ size', growSize w num size = .ok size' ∧ Doubled most (num + 1) size'
    else growSize w num size = .error (.invalidAllocSize (w * (most * 2))) := by
  have hsize := h.size_le
  obtain ⟨hle, k, hk⟩ := h
  have hpos' : 0 < size := Nat.pos_of_mul_pos_right (hk ▸ hpos)
  unfold growSize
  split_ifs with hlt hroom halloc halloc
  · exact ⟨size, rfl, by omega, k, hk⟩
  · cases k with
    | zero => omega
    | succ k =>
      have hdouble : size * 2 * 2 ^ k = most := by rw [← hk, pow_succ]; ring
      have hfits : size * 2 ≤ most := by
        rw [← hdouble]
        exact Nat.le_mul_of_pos_right _ (Nat.two_pow_pos k)
      exact absurd (Nat.le_trans (Nat.mul_le_mul_left w hfits) hwidth) (Nat.not_le.mpr halloc)
  · cases k with
    | zero => omega
    | succ k => exact ⟨size * 2, rfl, by omega, k, by rw [← hk, pow_succ]; ring⟩
  · omega
  · obtain rfl : size = most := by omega
    rfl
  · obtain rfl : size = most := by omega
    omega

/-! ## The stack -/

section

variable {qsortArg : (n : Nat) → Sorter (Fin n)} {io : ScalarIn} {frames stack : List ParseFrame}
  {r : Option GtypeValue}

theorem runEvents_cons {ε σ : Type} {sem : SemEvent → σ → Except ε σ} {e : SemEvent} {es : List SemEvent}
    {s : σ} : runEvents sem (e :: es) s = (sem e s).bind (runEvents sem es) := rfl

theorem runEvents_singleton {ε σ : Type} {sem : SemEvent → σ → Except ε σ} {e : SemEvent} {s : σ} :
    runEvents sem [e] s = sem e s := by
  unfold runEvents
  cases sem e s <;> rfl

/-- A value is handed to the container around it. -/
def handUp : List ParseFrame → GtypeValue → Except GtypeInErr (List ParseFrame)
  | [], _ => .ok []
  | frame :: frames, v => (appendChild frame v).map fun frame => frame :: frames

theorem popState_eq (frame : ParseFrame) (stack : List ParseFrame) :
    popState frame stack = (handUp stack frame.contVal).map fun frames => (frames, some frame.contVal) := by
  cases stack with
  | nil => rfl
  | cons parent frames => rw [popState, handUp, map_map_ok]

/-- **What the callbacks make of a tree**: the error, or a value that is handed up. One that stands alone is
the result. -/
def Makes (qsortArg : (n : Nat) → Sorter (Fin n)) (io : ScalarIn) (tree : GtypeTree) :
    Except GtypeInErr GtypeValue → Prop
  | .error e => ∀ stack r, runEvents (gtypeInAction qsortArg io) tree.events ⟨stack, r⟩ = .error e
  | .ok v => ∀ stack r, ∃ res, runEvents (gtypeInAction qsortArg io) tree.events ⟨stack, r⟩ =
      ((handUp stack v).map fun frames => (⟨frames, res⟩ : GtypeInState)) ∧ (stack = [] → res = some v.stored)

theorem makes_scalar {token : List UInt8} {t : TokenType} {annot : Option (List UInt8)} :
    Makes qsortArg io (.scalar token t annot) ((GtypeTree.scalar token t annot).value io) := by
  have hrun : ∀ stack r, runEvents (gtypeInAction qsortArg io) (GtypeTree.scalar token t annot).events ⟨stack, r⟩ =
      gtypeInScalar qsortArg io ⟨stack, r⟩ token t annot := fun stack r => by
    rw [GtypeTree.events, runEvents_singleton]
    rfl
  unfold GtypeTree.value
  cases hcast : castType t annot with
  | error e =>
    intro stack r
    rw [hrun, gtypeInScalar, hcast]
    rfl
  | ok t' =>
    show Makes _ _ _ ((scalarOfToken io token t').map .scalar)
    cases hs : scalarOfToken io token t' with
    | error e =>
      intro stack r
      rw [hrun, gtypeInScalar, hcast, ok_bind_eq, hs]
      rfl
    | ok s =>
      intro stack r
      rw [hrun, gtypeInScalar, hcast, ok_bind_eq, hs, ok_bind_eq]
      cases stack with
      | nil => exact ⟨some (.array true [.scalar s]), rfl, fun _ => rfl⟩
      | cons frame frames =>
        refine ⟨none, ?_, nofun⟩
        cases frame with
        | array rawScalar elems size =>
          rw [handUp, appendChild, map_map_ok]
          exact map_map_ok ..
        | object pairs key size =>
          rw [handUp, appendChild, map_map_ok]
          exact map_map_ok ..

/-- An array takes an element, until it is full: `GTYPE_MAX_ELEMS` is not reached. -/
theorem handUp_array {b : Bool} {elems : List GtypeValue} {size : Nat}
    (h : Doubled maxBuiltElems elems.length size) (frames : List ParseFrame) (v : GtypeValue) :
    if elems.length < maxBuiltElems then
      ∃ size', handUp (.array b elems size :: frames) v =
        .ok (.array b (elems ++ [v]) size' :: frames) ∧ Doubled maxBuiltElems (elems ++ [v]).length size'
    else handUp (.array b elems size :: frames) v = .error elemsFull := by
  have hsize := growSize_doubled (w := sizeofGtypeValue) h (by decide) (by decide) (by decide)
  have hmax : ¬ gtypeMaxElems ≤ elems.length := fun hle =>
    absurd (Nat.le_trans hle h.num_le) (by decide)
  have hup : handUp (.array b elems size :: frames) v =
      (if gtypeMaxElems ≤ elems.length then .error .tooManyElems
        else (growSize sizeofGtypeValue elems.length size).map (.array b (elems ++ [v]))).map
          (· :: frames) := rfl
  rw [hup, if_neg hmax]
  split_ifs at hsize ⊢ with hlt
  · obtain ⟨size', hgrow, hdoubled⟩ := hsize
    rw [hgrow]
    refine ⟨size', rfl, ?_⟩
    rwa [List.length_append, List.length_singleton]
  · rw [hsize]
    rfl

/-- An object takes a key, until it is full: `GTYPE_MAX_PAIRS` is not reached. -/
theorem appendKey_doubled {pairs : List GtypePair} {k : Option (List UInt8)} {size : Nat}
    (h : Doubled maxBuiltPairs pairs.length size) (string : List UInt8) :
    if pairs.length < maxBuiltPairs then
      ∃ size', appendKey (.object pairs k size) string = .ok (.object pairs (some string) size') ∧
        Doubled maxBuiltPairs (pairs.length + 1) size'
    else appendKey (.object pairs k size) string = .error pairsFull := by
  have hsize := growSize_doubled (w := sizeofGtypePair) h (by decide) (by decide) (by decide)
  have hmax : ¬ gtypeMaxPairs ≤ pairs.length := fun hle =>
    absurd (Nat.le_trans hle h.num_le) (by decide)
  unfold appendKey
  dsimp only
  rw [if_neg hmax]
  split_ifs at hsize ⊢ with hlt
  · obtain ⟨size', hgrow, hdoubled⟩ := hsize
    rw [hgrow]
    exact ⟨size', rfl, hdoubled⟩
  · rw [hsize]
    rfl

/-- The callbacks of an element, around those of its value. -/
theorem runEvents_element {v : GtypeTree} {es : List SemEvent} {st : GtypeInState} :
    runEvents (gtypeInAction qsortArg io)
      (.arrayElementStart v.isNull :: (v.events ++ .arrayElementEnd v.isNull :: es)) st =
    (runEvents (gtypeInAction qsortArg io) v.events st).bind (runEvents (gtypeInAction qsortArg io) es) := by
  rw [runEvents_cons]
  show runEvents _ (v.events ++ _) st = _
  rw [runEvents_append]
  rfl

/-- The callbacks of a field: its key is pushed, and its value hands itself up. -/
theorem runEvents_field {fname : List UInt8} {v : GtypeTree} {es : List SemEvent} {frame : ParseFrame} :
    runEvents (gtypeInAction qsortArg io)
      (.objectFieldStart fname v.isNull :: (v.events ++ .objectFieldEnd fname v.isNull :: es))
        ⟨frame :: frames, r⟩ =
    (checkStringLength fname).bind fun key => (appendKey frame key).bind fun frame =>
      (runEvents (gtypeInAction qsortArg io) v.events ⟨frame :: frames, none⟩).bind
        (runEvents (gtypeInAction qsortArg io) es) := by
  have hrest : ∀ st, runEvents (gtypeInAction qsortArg io) (v.events ++ .objectFieldEnd fname v.isNull :: es) st =
      (runEvents (gtypeInAction qsortArg io) v.events st).bind (runEvents (gtypeInAction qsortArg io) es) := by
    intro st
    rw [runEvents_append]
    rfl
  rw [runEvents_cons]
  show Except.bind ((checkStringLength fname).bind fun fname => GtypeInState.push _ _ (.key fname)) _ = _
  cases checkStringLength fname with
  | error e => rfl
  | ok key =>
    show ((((appendKey frame key).map fun frame => (frame :: frames, none)).map fun pushed => _).bind _) = _
    show _ = (appendKey frame key).bind _
    cases appendKey frame key with
    | error e => rfl
    | ok frame => exact hrest _

/-- What the callbacks make of elements, behind those that are there. -/
def MakesElems (qsortArg : (n : Nat) → Sorter (Fin n)) (io : ScalarIn) (vs : List GtypeTree)
    (elems : List GtypeValue) (size : Nat) (frames : List ParseFrame) (r : Option GtypeValue) :
    Except GtypeInErr (List GtypeValue) → Prop
  | .error e =>
    runEvents (gtypeInAction qsortArg io) (elemEvents vs) ⟨.array false elems size :: frames, r⟩ = .error e
  | .ok vals => ∃ size' r',
    runEvents (gtypeInAction qsortArg io) (elemEvents vs) ⟨.array false elems size :: frames, r⟩ =
      .ok ⟨.array false (elems ++ vals) size' :: frames, r'⟩

/-- What the callbacks make of fields, behind the pairs that are there. -/
def MakesFields (qsortArg : (n : Nat) → Sorter (Fin n)) (io : ScalarIn) (fields : List (List UInt8 × GtypeTree))
    (seq : List (List UInt8 × GtypeValue)) (key : Option (List UInt8)) (size : Nat) (frames : List ParseFrame)
    (r : Option GtypeValue) : Except GtypeInErr (List (List UInt8 × GtypeValue)) → Prop
  | .error e => runEvents (gtypeInAction qsortArg io) (fieldEvents fields)
      ⟨.object (numberedPairs seq) key size :: frames, r⟩ = .error e
  | .ok pairs => ∃ key' size' r', runEvents (gtypeInAction qsortArg io) (fieldEvents fields)
      ⟨.object (numberedPairs seq) key size :: frames, r⟩ =
      .ok ⟨.object (numberedPairs (seq ++ pairs)) key' size' :: frames, r'⟩

theorem makes_array {vs : List GtypeTree}
    (h : ∀ frames, MakesElems qsortArg io vs [] 4 frames (some (.array false [])) (elemValues io 0 vs)) :
    Makes qsortArg io (.array vs) ((GtypeTree.array vs).value io) := by
  have hrun : ∀ stack r, runEvents (gtypeInAction qsortArg io) (GtypeTree.array vs).events ⟨stack, r⟩ =
      (runEvents (gtypeInAction qsortArg io) (elemEvents vs)
        ⟨.array false [] 4 :: stack, some (.array false [])⟩).bind (gtypeInAction qsortArg io .arrayEnd) := by
    intro stack r
    rw [GtypeTree.events, runEvents_cons]
    show runEvents _ (elemEvents vs ++ [.arrayEnd]) _ = _
    rw [runEvents_append]
    exact congrArg _ (funext fun st => runEvents_singleton)
  unfold GtypeTree.value
  revert h
  cases elemValues io 0 vs with
  | error e =>
    intro h stack r
    rw [hrun, h stack]
    rfl
  | ok vals =>
    intro h stack r
    obtain ⟨size', r', hel⟩ := h stack
    refine ⟨some (.array false vals), ?_, fun _ => rfl⟩
    rw [hrun, hel]
    show (popState (.array false vals size') stack).map _ = _
    rw [popState_eq, map_map_ok]
    rfl

theorem makes_object {fields : List (List UInt8 × GtypeTree)} (hqsort : ∀ n, (qsortArg n).Lawful)
    (h : ∀ frames, MakesFields qsortArg io fields [] none 4 frames (some (.object [])) (fieldValues io 0 fields)) :
    Makes qsortArg io (.object fields) ((GtypeTree.object fields).value io) := by
  have hrun : ∀ stack r, runEvents (gtypeInAction qsortArg io) (GtypeTree.object fields).events ⟨stack, r⟩ =
      (runEvents (gtypeInAction qsortArg io) (fieldEvents fields)
        ⟨.object [] none 4 :: stack, some (.object [])⟩).bind (gtypeInAction qsortArg io .objectEnd) := by
    intro stack r
    rw [GtypeTree.events, runEvents_cons]
    show runEvents _ (fieldEvents fields ++ [.objectEnd]) _ = _
    rw [runEvents_append]
    exact congrArg _ (funext fun st => runEvents_singleton)
  unfold GtypeTree.value
  revert h
  cases fieldValues io 0 fields with
  | error e =>
    intro h stack r
    rw [hrun]
    exact congrArg (Except.bind · _) (h stack)
  | ok pairs =>
    intro h stack r
    obtain ⟨key', size', r', hfields⟩ := h stack
    have hcont : (ParseFrame.object (uniqueifyGtypeObject qsortArg (numberedPairs pairs)) key' size').contVal =
        .object (lastBindings KeyLt pairs) := congrArg GtypeValue.object (uniqueify_numbered hqsort pairs)
    refine ⟨some (.object (lastBindings KeyLt pairs)), ?_, fun _ => rfl⟩
    rw [hrun]
    refine (congrArg (Except.bind · _) hfields).trans ?_
    show (popState (.object (uniqueifyGtypeObject qsortArg (numberedPairs pairs)) key' size') stack).map _ = _
    rw [popState_eq, map_map_ok, hcont]

mutual

/-- **The callbacks make the value of a tree.** -/
theorem makes_value (hqsort : ∀ n, (qsortArg n).Lawful) (io : ScalarIn) : (tree : GtypeTree) →
    Makes qsortArg io tree (tree.value io)
  | .scalar token t annot => makes_scalar
  | .array vs => makes_array fun frames =>
    makesElems_values hqsort io vs [] 4 frames _ (doubled_start (k := 22) (by decide))
  | .object fields => makes_object hqsort fun frames =>
    makesFields_values hqsort io fields [] none 4 frames _ (doubled_start (k := 21) (by decide))

theorem makesElems_values (hqsort : ∀ n, (qsortArg n).Lawful) (io : ScalarIn) : (vs : List GtypeTree) →
    (elems : List GtypeValue) → (size : Nat) → (frames : List ParseFrame) → (r : Option GtypeValue) →
    Doubled maxBuiltElems elems.length size →
    MakesElems qsortArg io vs elems size frames r (elemValues io elems.length vs)
  | [], elems, size, frames, r, _ => by
    refine ⟨size, r, ?_⟩
    rw [List.append_nil]
    rfl
  | v :: vs, elems, size, frames, r, hdoubled => by
    have hv := makes_value hqsort io v
    have hup := handUp_array (b := false) hdoubled frames
    unfold elemValues
    revert hv
    cases v.value io with
    | error e =>
      intro hv
      show runEvents _ (elemEvents (v :: vs)) _ = _
      rw [elemEvents, runEvents_element, hv]
      rfl
    | ok val =>
      intro hv
      have hup := hup val
      obtain ⟨r', hv, -⟩ := hv (.array false elems size :: frames) r
      show MakesElems _ _ _ _ _ _ _ (if _ then _ else _)
      split_ifs at hup ⊢ with hlt
      · obtain ⟨size', hup, hdoubled'⟩ := hup
        have ih := makesElems_values hqsort io vs (elems ++ [val]) size' frames r' hdoubled'
        have hrun : runEvents (gtypeInAction qsortArg io) (elemEvents (v :: vs))
            ⟨.array false elems size :: frames, r⟩ =
            runEvents (gtypeInAction qsortArg io) (elemEvents vs)
              ⟨.array false (elems ++ [val]) size' :: frames, r'⟩ := by
          rw [elemEvents, runEvents_element, hv, hup]
          rfl
        rw [List.length_append, List.length_singleton] at ih
        revert ih
        cases elemValues io (elems.length + 1) vs with
        | error e =>
          intro ih
          exact hrun.trans ih
        | ok vals =>
          intro ih
          obtain ⟨size'', r'', ih⟩ := ih
          refine ⟨size'', r'', hrun.trans (ih.trans ?_)⟩
          rw [List.append_assoc]
          rfl
      · show runEvents _ (elemEvents (v :: vs)) _ = _
        rw [elemEvents, runEvents_element, hv, hup]
        rfl

theorem makesFields_values (hqsort : ∀ n, (qsortArg n).Lawful) (io : ScalarIn) :
    (fields : List (List UInt8 × GtypeTree)) → (seq : List (List UInt8 × GtypeValue)) →
    (key : Option (List UInt8)) → (size : Nat) → (frames : List ParseFrame) → (r : Option GtypeValue) →
    Doubled maxBuiltPairs seq.length size →
    MakesFields qsortArg io fields seq key size frames r (fieldValues io seq.length fields)
  | [], seq, key, size, frames, r, _ => by
    refine ⟨key, size, r, ?_⟩
    rw [List.append_nil]
    rfl
  | (fname, v) :: fields, seq, key, size, frames, r, hdoubled => by
    have hv := makes_value hqsort io v
    rw [← length_numberedPairs] at hdoubled
    have hkey := appendKey_doubled (k := key) hdoubled fname
    rw [length_numberedPairs] at hdoubled hkey
    unfold fieldValues checkStringLength
    by_cases hlong : gtentryOfflenmask < fname.length
    · rw [if_pos hlong]
      show runEvents _ (fieldEvents ((fname, v) :: fields)) _ = _
      rw [fieldEvents, runEvents_field, checkStringLength, if_pos hlong]
      rfl
    rw [if_neg hlong]
    show MakesFields _ _ _ _ _ _ _ _ (if seq.length < maxBuiltPairs then _ else _)
    have hfield : ∀ frame, runEvents (gtypeInAction qsortArg io) (fieldEvents ((fname, v) :: fields))
        ⟨frame :: frames, r⟩ = (appendKey frame fname).bind fun frame =>
          (runEvents (gtypeInAction qsortArg io) v.events ⟨frame :: frames, none⟩).bind
            (runEvents (gtypeInAction qsortArg io) (fieldEvents fields)) := by
      intro frame
      rw [fieldEvents, runEvents_field, checkStringLength, if_neg hlong]
      rfl
    split_ifs at hkey ⊢ with hlt
    · obtain ⟨size', hkey, hdoubled'⟩ := hkey
      revert hv
      cases v.value io with
      | error e =>
        intro hv
        show runEvents _ (fieldEvents ((fname, v) :: fields)) _ = _
        rw [hfield, hkey]
        show (runEvents _ v.events _).bind _ = _
        rw [hv]
        rfl
      | ok val =>
        intro hv
        obtain ⟨r', hv, -⟩ := hv (.object (numberedPairs seq) (some fname) size' :: frames) none
        have hrun : runEvents (gtypeInAction qsortArg io) (fieldEvents ((fname, v) :: fields))
            ⟨.object (numberedPairs seq) key size :: frames, r⟩ =
            runEvents (gtypeInAction qsortArg io) (fieldEvents fields)
              ⟨.object (numberedPairs (seq ++ [(fname, val)])) none size' :: frames, r'⟩ := by
          rw [hfield, hkey]
          show (runEvents _ v.events _).bind _ = _
          rw [hv, numberedPairs_append, ← length_numberedPairs seq]
          rfl
        have ih := makesFields_values hqsort io fields (seq ++ [(fname, val)]) none size' frames r'
          (by rwa [List.length_append, List.length_singleton])
        rw [List.length_append, List.length_singleton] at ih
        show MakesFields _ _ _ _ _ _ _ _ ((fieldValues io (seq.length + 1) fields).map _)
        revert ih
        cases fieldValues io (seq.length + 1) fields with
        | error e =>
          intro ih
          exact hrun.trans ih
        | ok pairs =>
          intro ih
          obtain ⟨key', size'', r'', ih⟩ := ih
          refine ⟨key', size'', r'', hrun.trans (ih.trans ?_)⟩
          rw [List.append_assoc]
          rfl
    · show runEvents _ (fieldEvents ((fname, v) :: fields)) _ = _
      rw [hfield, hkey]
      rfl

end

/-- The callbacks of a whole document leave the value of its tree as the result. -/
theorem runEvents_document {tree : GtypeTree} (hqsort : ∀ n, (qsortArg n).Lawful) {st : GtypeInState} :
    runEvents (gtypeInAction qsortArg io) tree.events ⟨[], none⟩ = .ok st ↔
      ∃ v, tree.value io = .ok v ∧ st = ⟨[], some v.stored⟩ := by
  have hmakes := makes_value hqsort io tree
  revert hmakes
  cases tree.value io with
  | error e =>
    intro hmakes
    rw [hmakes]
    exact iff_of_false nofun nofun
  | ok v =>
    intro hmakes
    obtain ⟨res, hrun, hres⟩ := hmakes [] none
    rw [hrun, hres rfl]
    constructor
    · intro h
      cases h
      exact ⟨v, rfl, rfl⟩
    · rintro ⟨w, hw, rfl⟩
      cases hw
      rfl

theorem stored_stored (v : GtypeValue) : v.stored.stored = v.stored := by
  cases v <;> rfl

/-- **What is stored for a text**: the text is a document, its tree has a value, and the value is converted. -/
theorem gtypeIn_ok (hqsort : ∀ n, (qsortArg n).Lawful) {g : Memory} {utf8 : Bool} {str datum : List UInt8} :
    gtypeIn qsortArg g utf8 io str = .ok datum ↔ ∃ tree v, GtypeTree.Document utf8 tree str ∧
      tree.value io = .ok v ∧ gtypeValueToGtype g v = .ok datum := by
  constructor
  · intro h
    obtain ⟨st, hparse, h⟩ := bind_eq_ok h
    obtain ⟨tree, hdoc, hrun⟩ := parseGtype_sound (mapError_eq_ok.mp hparse)
    obtain ⟨v, hv, rfl⟩ := (runEvents_document hqsort).mp hrun
    have hconvert := mapError_eq_ok.mp h
    unfold gtypeValueToGtype at hconvert
    rw [stored_stored] at hconvert
    exact ⟨tree, v, hdoc, hv, hconvert⟩
  · rintro ⟨tree, v, hdoc, hv, hconvert⟩
    have hrun := (runEvents_document hqsort).mpr ⟨v, hv, rfl⟩
    unfold gtypeIn
    rw [parseGtype_complete hdoc hrun]
    unfold gtypeValueToGtype at hconvert ⊢
    show (convertToGtype g v.stored.stored).mapError _ = _
    rw [stored_stored, hconvert]
    rfl

end

/-! ## An input -/

/-- The number that decimal digits write. -/
def digitsValue (ds : List UInt8) : Nat := ds.foldl (fun n c => n * 10 + (c.toNat - 48)) 0

/-- `pg_strtoint64_safe`, of a sign and decimal digits. -/
def strtoint64 : List UInt8 → Option UInt64
  | 45 :: ds => if ds.all isDigitByte ∧ digitsValue ds ≤ 2 ^ 63 then some (.ofNat (2 ^ 64 - digitsValue ds)) else none
  | ds => if ds.all isDigitByte ∧ digitsValue ds < 2 ^ 63 then some (.ofNat (digitsValue ds)) else none

/-- Input functions that read integers and nothing else. -/
def exampleScalarIn : ScalarIn where
  strtoint64 := strtoint64
  float8in _ := none
  numericIn _ := none
  timestampIn _ := none
  timestamptzIn _ := none
  dateIn _ := none
  timeIn _ := none
  timetzIn _ := none
  intervalIn _ := none
  inetIn _ := none
  cidrIn _ := none
  macaddrIn _ := none
  macaddr8In _ := none

end NeoPostGraph
