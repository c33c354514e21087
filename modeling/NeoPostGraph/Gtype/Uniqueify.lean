import NeoPostGraph.Gtype.Value
import NeoPostGraph.Lib.Sorter
import Mathlib.Data.List.Chain

/-!
# The pairs of an object

`append_key` and `append_value` collect the pairs of an object as they come, and
`uniqueify_gtype_object` (`gtype_util.c:1065-1152`) sorts them and drops what is there twice. Of equal
keys the comparison puts the one that came last first, and that one is kept.

* `KeyLt`: shorter keys first, then bytewise.
* `uniqueifyGtypeObject`: with any sorter that `qsort_arg` may be.

Result: `uniqueifyGtypeObject_spec`, the keys are strictly sorted, none is lost, and each has the value it
was given last.
-/

namespace NeoPostGraph

/-- `gtype_pair`. -/
structure GtypePair where
  key : List UInt8
  value : GtypeValue
  /-- The place among the pairs as they came. -/
  order : Nat

/-- `append_key` and `append_value` (`gtype_util.c:341-375`): a pair is added unless the object has
`GTYPE_MAX_PAIRS`. -/
def appendPair (maxPairs : Nat) (pairs : List GtypePair) (p : List UInt8 × GtypeValue) :
    Option (List GtypePair) :=
  if maxPairs ≤ pairs.length then none else some (pairs ++ [⟨p.1, p.2, pairs.length⟩])

/-- The pairs of an object, from its keys and values as they come. -/
def collectPairs (maxPairs : Nat) (seq : List (List UInt8 × GtypeValue)) : Option (List GtypePair) :=
  seq.foldlM (appendPair maxPairs) []

/-! ## The comparisons -/

/-- `memcmp`, of as many bytes as both have. -/
def memcmp : List UInt8 → List UInt8 → Int
  | a :: as, b :: bs => if a = b then memcmp as bs else (a.toNat : Int) - b.toNat
  | _, _ => 0

/-- `length_compare_gtype_string_value`. -/
def lengthCompareGtypeStringValue (a b : List UInt8) : Int :=
  if a.length = b.length then memcmp a b else if a.length > b.length then 1 else -1

/-- `length_compare_gtype_pair`: the result. It sets `binequal` when the keys are equal. -/
def lengthCompareGtypePair (a b : GtypePair) : Int :=
  let res := lengthCompareGtypeStringValue a.key b.key
  if res = 0 then (if a.order > b.order then -1 else 1) else res

/-- The loop of `uniqueify_gtype_object` over a sorted array, with the pair that was kept last. -/
def compactPairs (res : GtypePair) : List GtypePair → List GtypePair
  | [] => [res]
  | ptr :: rest =>
    if lengthCompareGtypeStringValue ptr.key res.key ≠ 0 then res :: compactPairs ptr rest
    else compactPairs res rest

/-- What `qsort_arg` is asked to sort by: the pair in one place is less than that in another. -/
def pairLt (pairs : List GtypePair) (i j : Fin pairs.length) : Bool :=
  lengthCompareGtypePair (pairs.get i) (pairs.get j) < 0

/-- `uniqueify_gtype_object`. -/
def uniqueifyGtypeObject (qsortArg : (n : Nat) → Sorter (Fin n)) (pairs : List GtypePair) :
    List GtypePair :=
  if 1 < pairs.length then
    let sorter := qsortArg pairs.length
    let sorted := (sorter.run (pairLt pairs)).map pairs.get
    let hasNonUniq := (sorter.asked (pairLt pairs)).any fun p =>
      lengthCompareGtypeStringValue (pairs.get p.1).key (pairs.get p.2).key = 0
    match sorted with
    | [] => []
    | res :: rest => if hasNonUniq then compactPairs res rest else sorted
  else pairs

/-! ## The order of keys -/

/-- Shorter keys first, then bytewise. -/
def KeyLt (a b : List UInt8) : Prop := a.length < b.length ∨ a.length = b.length ∧ a < b

theorem memcmp_eq_zero_iff {a b : List UInt8} (h : a.length = b.length) : memcmp a b = 0 ↔ a = b := by
  induction a generalizing b with
  | nil =>
    obtain rfl := List.eq_nil_of_length_eq_zero h.symm
    simp [memcmp]
  | cons x a ih =>
    cases b with
    | nil => cases h
    | cons y b =>
      have hlen : a.length = b.length := Nat.succ.inj h
      unfold memcmp
      split_ifs with hxy
      · subst hxy
        rw [ih hlen, List.cons.injEq]
        simp
      · have hne : x.toNat ≠ y.toNat := fun he => hxy (UInt8.toNat_inj.mp he)
        simp only [List.cons.injEq, hxy, false_and, iff_false]
        omega

theorem memcmp_neg_iff {a b : List UInt8} (h : a.length = b.length) : memcmp a b < 0 ↔ a < b := by
  induction a generalizing b with
  | nil =>
    obtain rfl := List.eq_nil_of_length_eq_zero h.symm
    simp [memcmp]
  | cons x a ih =>
    cases b with
    | nil => cases h
    | cons y b =>
      have hlen : a.length = b.length := Nat.succ.inj h
      unfold memcmp
      rw [List.cons_lt_cons_iff]
      split_ifs with hxy
      · subst hxy
        rw [ih hlen]
        simp
      · have hlt : x < y ↔ x.toNat < y.toNat := UInt8.lt_iff_toNat_lt
        simp only [hxy, false_and, or_false, hlt]
        omega

theorem lengthCompare_eq_zero_iff {a b : List UInt8} : lengthCompareGtypeStringValue a b = 0 ↔ a = b := by
  unfold lengthCompareGtypeStringValue
  split_ifs with hlen hgt
  · exact memcmp_eq_zero_iff hlen
  · simp only [one_ne_zero, false_iff]
    rintro rfl
    exact hlen rfl
  · refine iff_of_false (by decide) ?_
    rintro rfl
    exact hlen rfl

theorem lengthCompare_neg_iff {a b : List UInt8} : lengthCompareGtypeStringValue a b < 0 ↔ KeyLt a b := by
  unfold lengthCompareGtypeStringValue KeyLt
  split_ifs with hlen hgt
  · simp [memcmp_neg_iff hlen, hlen]
  · simp only [hlen, false_and, or_false]
    omega
  · simp only [hlen, false_and, or_false]
    omega

theorem KeyLt.irrefl (a : List UInt8) : ¬ KeyLt a a := by
  rintro (h | ⟨-, h⟩)
  · exact Nat.lt_irrefl _ h
  · exact List.lt_irrefl a h

theorem KeyLt.trans {a b c : List UInt8} (h : KeyLt a b) (h' : KeyLt b c) : KeyLt a c := by
  rcases h with h | ⟨h, hlt⟩
  · rcases h' with h' | ⟨h', -⟩
    · exact Or.inl (Nat.lt_trans h h')
    · exact Or.inl (h' ▸ h)
  · rcases h' with h' | ⟨h', hlt'⟩
    · exact Or.inl (h ▸ h')
    · exact Or.inr ⟨h.trans h', List.lt_trans hlt hlt'⟩

theorem memcmp_neg (a b : List UInt8) : memcmp b a = - memcmp a b := by
  induction a generalizing b with
  | nil => cases b <;> rfl
  | cons x a ih =>
    cases b with
    | nil => rfl
    | cons y b =>
      unfold memcmp
      by_cases hxy : x = y
      · rw [if_pos hxy, if_pos hxy.symm, ih]
      · rw [if_neg hxy, if_neg (Ne.symm hxy)]
        omega

theorem KeyLt.total {a b : List UInt8} (h : a ≠ b) : KeyLt a b ∨ KeyLt b a := by
  rcases Nat.lt_trichotomy a.length b.length with hlt | heq | hgt
  · exact Or.inl (Or.inl hlt)
  · have hne : memcmp a b ≠ 0 := fun h0 => h ((memcmp_eq_zero_iff heq).mp h0)
    by_cases hneg : memcmp a b < 0
    · exact Or.inl (Or.inr ⟨heq, (memcmp_neg_iff heq).mp hneg⟩)
    · have hpos : memcmp b a < 0 := by
        rw [memcmp_neg]
        omega
      exact Or.inr (Or.inr ⟨heq.symm, (memcmp_neg_iff heq.symm).mp hpos⟩)
  · exact Or.inr (Or.inl hgt)

/-! ## The order of pairs -/

/-- By key, and of one key what came last first. -/
def PairLt (a b : GtypePair) : Prop := KeyLt a.key b.key ∨ a.key = b.key ∧ b.order < a.order

theorem lengthComparePair_neg_iff {a b : GtypePair} : lengthCompareGtypePair a b < 0 ↔ PairLt a b := by
  unfold lengthCompareGtypePair PairLt
  by_cases hkey : a.key = b.key
  · have hzero : lengthCompareGtypeStringValue a.key b.key = 0 := lengthCompare_eq_zero_iff.mpr hkey
    have hirr : ¬ KeyLt a.key b.key := hkey ▸ KeyLt.irrefl a.key
    dsimp only
    rw [if_pos hzero]
    constructor
    · intro h
      refine Or.inr ⟨hkey, ?_⟩
      by_contra hle
      rw [if_neg hle] at h
      omega
    · rintro (h | ⟨-, h⟩)
      · exact absurd h hirr
      · rw [if_pos h]
        omega
  · have hzero : lengthCompareGtypeStringValue a.key b.key ≠ 0 :=
      fun h0 => hkey (lengthCompare_eq_zero_iff.mp h0)
    simp only [hzero, if_false, hkey, false_and, or_false]
    exact lengthCompare_neg_iff

/-- The places of the pairs as they came are their own. -/
def OwnOrder (pairs : List GtypePair) : Prop :=
  ∀ i j : Fin pairs.length, (pairs.get i).order = (pairs.get j).order → i = j

/-- **The comparison is an order**, also for equal keys. -/
theorem orders_pairLt {pairs : List GtypePair} (hown : OwnOrder pairs) : Orders (pairLt pairs) := by
  have hlt : ∀ i j, pairLt pairs i j = true ↔ PairLt (pairs.get i) (pairs.get j) := fun i j => by
    unfold pairLt
    rw [decide_eq_true_eq]
    exact lengthComparePair_neg_iff
  refine ⟨fun {i j} hij => ?_, fun {i j k} hij hjk => ?_, fun {i j} hne => ?_⟩
  · rw [Bool.eq_false_iff]
    intro hji
    rw [hlt] at hij hji
    rcases hij with hij | ⟨hkey, hij⟩
    · rcases hji with hji | ⟨hkey, -⟩
      · exact KeyLt.irrefl _ (hij.trans hji)
      · exact KeyLt.irrefl _ (hkey ▸ hij)
    · rcases hji with hji | ⟨-, hji⟩
      · exact KeyLt.irrefl _ (hkey ▸ hji)
      · exact Nat.lt_asymm hij hji
  · rw [hlt] at hij hjk ⊢
    rcases hij with hij | ⟨hkey, hij⟩
    · rcases hjk with hjk | ⟨hkey', -⟩
      · exact Or.inl (hij.trans hjk)
      · exact Or.inl (hkey' ▸ hij)
    · rcases hjk with hjk | ⟨hkey', hjk⟩
      · exact Or.inl (hkey ▸ hjk)
      · exact Or.inr ⟨hkey.trans hkey', Nat.lt_trans hjk hij⟩
  · rw [hlt, hlt]
    by_cases hkey : (pairs.get i).key = (pairs.get j).key
    · rcases Nat.lt_trichotomy (pairs.get i).order (pairs.get j).order with h | h | h
      · exact Or.inr (Or.inr ⟨hkey.symm, h⟩)
      · exact absurd (hown i j h) hne
      · exact Or.inl (Or.inr ⟨hkey, h⟩)
    · exact (KeyLt.total hkey).imp Or.inl Or.inl

/-! ## Dropping what is there twice -/

/-- What the loop keeps. -/
structure Compacted (all kept : List GtypePair) : Prop where
  sorted : (kept.map GtypePair.key).Pairwise KeyLt
  keys : ∀ k, k ∈ kept.map GtypePair.key ↔ k ∈ all.map GtypePair.key
  last : ∀ p ∈ kept, p ∈ all ∧ ∀ q ∈ all, q.key = p.key → q.order ≤ p.order

/-- **Of a run of equal keys the first pair is kept.** -/
theorem compactPairs_spec {res : GtypePair} {rest : List GtypePair} (h : (res :: rest).Pairwise PairLt) :
    Compacted (res :: rest) (compactPairs res rest) ∧ ∃ tail, compactPairs res rest = res :: tail := by
  induction rest generalizing res with
  | nil => exact ⟨⟨List.pairwise_singleton _ _, fun k => Iff.rfl, fun p hp => ⟨hp, fun q hq _ => by
      rw [List.mem_singleton.mp hp, List.mem_singleton.mp hq]⟩⟩, [], rfl⟩
  | cons ptr rest ih =>
    obtain ⟨hres, hrest⟩ := List.pairwise_cons.mp h
    unfold compactPairs
    split_ifs with hne
    · have hkey : ptr.key ≠ res.key := fun he => hne (lengthCompare_eq_zero_iff.mpr he)
      obtain ⟨⟨hsorted, hkeys, hlast⟩, tail, htail⟩ := ih hrest
      -- all keys behind are greater
      have hgreater : ∀ q ∈ ptr :: rest, KeyLt res.key q.key := by
        have hptr : KeyLt res.key ptr.key :=
          (hres ptr List.mem_cons_self).resolve_right fun he => hkey he.1.symm
        intro q hq
        rcases List.mem_cons.mp hq with rfl | hq
        · exact hptr
        · rcases (List.pairwise_cons.mp hrest).1 q hq with hlt | ⟨he, -⟩
          · exact hptr.trans hlt
          · exact he ▸ hptr
      refine ⟨⟨?_, fun k => ?_, fun p hp => ?_⟩, _, rfl⟩
      · rw [List.map_cons, List.pairwise_cons]
        refine ⟨fun k hk => ?_, hsorted⟩
        obtain ⟨q, hq, rfl⟩ := List.mem_map.mp ((hkeys k).mp hk)
        exact hgreater q hq
      · rw [List.map_cons, List.map_cons, List.mem_cons, List.mem_cons, hkeys]
      · rcases List.mem_cons.mp hp with rfl | hp
        · refine ⟨List.mem_cons_self, fun q hq he => ?_⟩
          rcases List.mem_cons.mp hq with rfl | hq
          · exact Nat.le_refl _
          · exact absurd (he ▸ hgreater q hq) (KeyLt.irrefl _)
        · obtain ⟨hmem, hmax⟩ := hlast p hp
          refine ⟨List.mem_cons_of_mem _ hmem, fun q hq he => ?_⟩
          rcases List.mem_cons.mp hq with rfl | hq
          · exact absurd (he ▸ hgreater p hmem) (KeyLt.irrefl _)
          · exact hmax q hq he
    · have hkey : ptr.key = res.key := by
        by_contra he
        exact hne fun h0 => he (lengthCompare_eq_zero_iff.mp h0)
      have hsub : (res :: rest).Pairwise PairLt :=
        List.pairwise_cons.mpr ⟨fun q hq => hres q (List.mem_cons_of_mem _ hq), (List.pairwise_cons.mp hrest).2⟩
      obtain ⟨⟨hsorted, hkeys, hlast⟩, tail, htail⟩ := ih hsub
      refine ⟨⟨hsorted, fun k => ?_, fun p hp => ?_⟩, tail, htail⟩
      · rw [hkeys, List.map_cons, List.map_cons, List.map_cons, List.mem_cons, List.mem_cons, List.mem_cons,
          hkey]
        tauto
      · obtain ⟨hmem, hmax⟩ := hlast p hp
        refine ⟨?_, fun q hq he => ?_⟩
        · rcases List.mem_cons.mp hmem with rfl | hmem
          · exact List.mem_cons_self
          · exact List.mem_cons_of_mem _ (List.mem_cons_of_mem _ hmem)
        · rcases List.mem_cons.mp hq with rfl | hq
          · exact hmax q List.mem_cons_self he
          · rcases List.mem_cons.mp hq with rfl | hq
            · -- the pair that is dropped came before the one that is kept
              have hdrop : q.order ≤ res.order := by
                rcases hres q List.mem_cons_self with hlt | ⟨-, hlt⟩
                · exact absurd (hkey ▸ hlt) (KeyLt.irrefl _)
                · exact Nat.le_of_lt hlt
              exact Nat.le_trans hdrop (hmax res List.mem_cons_self (hkey.symm.trans he))
            · exact hmax q (List.mem_cons_of_mem _ hq) he

/-- Where no neighbours have equal keys nothing is dropped. -/
theorem compactPairs_of_chain {res : GtypePair} {rest : List GtypePair}
    (h : (res :: rest).IsChain fun a b => a.key ≠ b.key) : compactPairs res rest = res :: rest := by
  induction rest generalizing res with
  | nil => rfl
  | cons ptr rest ih =>
    obtain ⟨hne, hrest⟩ := List.isChain_cons_cons.mp h
    unfold compactPairs
    rw [if_pos fun h0 => hne (lengthCompare_eq_zero_iff.mp h0).symm, ih hrest]

/-! ## The object -/

section

variable {qsortArg : (n : Nat) → Sorter (Fin n)} {pairs : List GtypePair}

/-- **Sorted pairs are compacted, or need not be**: if the comparison has not seen equal keys there are
none, since neighbours have been compared. -/
theorem uniqueifyGtypeObject_compacted (hq : (qsortArg pairs.length).Lawful) (hown : OwnOrder pairs) :
    Compacted pairs (uniqueifyGtypeObject qsortArg pairs) := by
  unfold uniqueifyGtypeObject
  split_ifs with hmany
  · have horders := orders_pairLt hown
    obtain ⟨hall, hsorted⟩ := hq (pairLt pairs) horders
    have hmem : ∀ p, p ∈ ((qsortArg pairs.length).run (pairLt pairs)).map pairs.get ↔ p ∈ pairs := by
      intro p
      rw [List.mem_map, List.mem_iff_get]
      exact ⟨fun ⟨i, _, hi⟩ => ⟨i, hi⟩, fun ⟨i, hi⟩ => ⟨i, hall i, hi⟩⟩
    have hpairs : (((qsortArg pairs.length).run (pairLt pairs)).map pairs.get).Pairwise PairLt := by
      rw [List.pairwise_map]
      refine hsorted.imp fun {i j} hij => ?_
      unfold pairLt at hij
      rw [decide_eq_true_eq] at hij
      exact lengthComparePair_neg_iff.mp hij
    have hchain : ((qsortArg pairs.length).asked (pairLt pairs)).any (fun p =>
          lengthCompareGtypeStringValue (pairs.get p.1).key (pairs.get p.2).key = 0) = false →
        (((qsortArg pairs.length).run (pairLt pairs)).map pairs.get).IsChain fun a b => a.key ≠ b.key := by
      intro hflag
      rw [List.isChain_map, List.isChain_iff_forall_rel_of_append_cons_cons]
      intro i j as bs hrun he
      have hasked : ∀ p ∈ (qsortArg pairs.length).asked (pairLt pairs),
          (pairs.get p.1).key ≠ (pairs.get p.2).key := by
        intro p hp hkey
        have hnone := List.any_eq_false.mp hflag p hp
        simp only [decide_eq_true_eq] at hnone
        exact hnone (lengthCompare_eq_zero_iff.mpr hkey)
      rcases hq.asked_of_adjacent horders hrun with hij | hji
      · exact hasked _ hij he
      · exact hasked _ hji he.symm
    dsimp only
    split
    · next hnil =>
      exfalso
      have hzero : pairs.get ⟨0, by omega⟩ ∈ ((qsortArg pairs.length).run (pairLt pairs)).map pairs.get :=
        (hmem _).mpr (List.get_mem _ _)
      rw [hnil] at hzero
      exact List.not_mem_nil hzero
    · next res rest hsplit =>
      rw [hsplit] at hpairs hmem hchain ⊢
      have hcompacted : Compacted pairs (compactPairs res rest) := by
        obtain ⟨⟨hkeys, hsame, hlast⟩, -⟩ := compactPairs_spec hpairs
        refine ⟨hkeys, fun k => ?_, fun p hp => ?_⟩
        · rw [hsame, List.mem_map, List.mem_map]
          simp only [hmem]
        · obtain ⟨hp, hmax⟩ := hlast p hp
          exact ⟨(hmem p).mp hp, fun q hq he => hmax q ((hmem q).mpr hq) he⟩
      split
      · exact hcompacted
      · next hflag =>
        rw [← compactPairs_of_chain (hchain (by simpa using hflag))]
        exact hcompacted
  · -- one pair at most
    match pairs, hmany with
    | [], _ => exact ⟨List.Pairwise.nil, fun k => Iff.rfl, nofun⟩
    | [p], _ =>
      refine ⟨List.pairwise_singleton _ _, fun k => Iff.rfl, fun q hq => ⟨hq, fun r hr _ => ?_⟩⟩
      rw [List.mem_singleton.mp hq, List.mem_singleton.mp hr]
    | _ :: _ :: _, hmany => exact absurd (by simp) hmany

end

/-- The pairs are those that came, with their places. -/
theorem collectPairs_eq {maxPairs : Nat} {seq : List (List UInt8 × GtypeValue)} {pairs : List GtypePair}
    (h : collectPairs maxPairs seq = some pairs) :
    pairs = seq.zipIdx.map fun p => ⟨p.1.1, p.1.2, p.2⟩ := by
  have hgen : ∀ (seq : List (List UInt8 × GtypeValue)) (start pairs : List GtypePair),
      seq.foldlM (appendPair maxPairs) start = some pairs →
      pairs = start ++ (seq.zipIdx start.length).map fun p => ⟨p.1.1, p.1.2, p.2⟩ := by
    intro seq
    induction seq with
    | nil =>
      intro start pairs h
      cases h
      simp
    | cons p seq ih =>
      intro start pairs h
      obtain ⟨next, hnext, hrest⟩ := Option.bind_eq_some_iff.mp h
      unfold appendPair at hnext
      split_ifs at hnext with hfull
      cases hnext
      rw [ih _ _ hrest]
      simp
  simpa using hgen seq [] pairs h

/-- **`uniqueify_gtype_object`**: the keys are strictly sorted, none is lost or made up, and each has the
value it was given last. -/
theorem uniqueifyGtypeObject_spec {qsortArg : (n : Nat) → Sorter (Fin n)} {maxPairs : Nat}
    {seq : List (List UInt8 × GtypeValue)} {pairs : List GtypePair}
    (hq : (qsortArg pairs.length).Lawful) (h : collectPairs maxPairs seq = some pairs) :
    ((uniqueifyGtypeObject qsortArg pairs).map GtypePair.key).Pairwise KeyLt ∧
      (∀ k, k ∈ (uniqueifyGtypeObject qsortArg pairs).map GtypePair.key ↔ k ∈ seq.map Prod.fst) ∧
      ∀ p ∈ uniqueifyGtypeObject qsortArg pairs, seq.reverse.find? (fun q => q.1 = p.key) =
        some (p.key, p.value) := by
  have hpairs := collectPairs_eq h
  have hown : OwnOrder pairs := by
    subst hpairs
    intro i j hij
    simpa [List.get_eq_getElem, Fin.ext_iff] using hij
  obtain ⟨hsorted, hkeys, hlast⟩ := uniqueifyGtypeObject_compacted hq hown
  have hall : pairs.map GtypePair.key = seq.map Prod.fst := by
    subst hpairs
    rw [List.map_map]
    have hcomp : (GtypePair.key ∘ fun p : (List UInt8 × GtypeValue) × Nat => ⟨p.1.1, p.1.2, p.2⟩) =
        Prod.fst ∘ Prod.fst := rfl
    rw [hcomp, ← List.map_map, List.zipIdx_map_fst]
  refine ⟨hsorted, fun k => by rw [hkeys, hall], fun p hp => ?_⟩
  obtain ⟨hmem, hmax⟩ := hlast p hp
  -- it is the pair that came in the place of its order
  have hplace : ∀ x : GtypePair, x ∈ pairs ↔ seq[x.order]? = some (x.key, x.value) := by
    intro x
    rw [hpairs, List.mem_map]
    simp only [List.mem_zipIdx_iff_getElem?]
    constructor
    · rintro ⟨y, hy, rfl⟩
      exact hy
    · intro hx
      exact ⟨((x.key, x.value), x.order), hx, rfl⟩
  obtain ⟨hlt, hat⟩ := List.getElem?_eq_some_iff.mp ((hplace p).mp hmem)
  have hsplit : seq = seq.take p.order ++ (p.key, p.value) :: seq.drop (p.order + 1) := by
    rw [← hat, ← List.drop_eq_getElem_cons hlt, List.take_append_drop]
  have hbehind : (seq.drop (p.order + 1)).reverse.find? (fun q => decide (q.1 = p.key)) = none := by
    refine List.find?_eq_none.mpr fun q hq => ?_
    simp only [decide_eq_true_eq]
    intro hkey
    obtain ⟨j, hj⟩ := List.mem_iff_getElem?.mp (List.mem_reverse.mp hq)
    rw [List.getElem?_drop] at hj
    have hle : p.order + 1 + j ≤ p.order :=
      hmax ⟨q.1, q.2, p.order + 1 + j⟩ ((hplace _).mpr hj) hkey
    omega
  rw [hsplit, List.reverse_append, List.reverse_cons, List.append_assoc, List.find?_append, hbehind]
  simp

/-- An insertion sort in the place of `qsort_arg`. -/
def insertionQsort (n : Nat) : Sorter (Fin n) := Sorter.insertionSorter (List.finRange n)

theorem lawful_insertionQsort (n : Nat) : (insertionQsort n).Lawful :=
  Sorter.lawful_insertionSorter List.mem_finRange (List.nodup_finRange n)

/-- A key that is given twice. -/
def twiceGiven : List (List UInt8 × GtypeValue) :=
  [([97], .scalar (.bool true)), ([98, 98], .scalar .null), ([97], .scalar (.bool false))]

/-- The pairs as they are collected. -/
def twicePairs : List GtypePair :=
  [⟨[97], .scalar (.bool true), 0⟩, ⟨[98, 98], .scalar .null, 1⟩, ⟨[97], .scalar (.bool false), 2⟩]

theorem uniqueifyGtypeObject_spec_example :
    ((uniqueifyGtypeObject insertionQsort twicePairs).map GtypePair.key).Pairwise KeyLt ∧
      (∀ k, k ∈ (uniqueifyGtypeObject insertionQsort twicePairs).map GtypePair.key ↔
        k ∈ twiceGiven.map Prod.fst) ∧
      ∀ p ∈ uniqueifyGtypeObject insertionQsort twicePairs,
        twiceGiven.reverse.find? (fun q => q.1 = p.key) = some (p.key, p.value) :=
  @uniqueifyGtypeObject_spec insertionQsort 3 twiceGiven twicePairs (lawful_insertionQsort _) rfl

end NeoPostGraph
