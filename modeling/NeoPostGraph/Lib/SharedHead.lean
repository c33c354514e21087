import Mathlib.Data.List.Induction
import Mathlib.Logic.Function.Basic

/-!
# Pushing at a shared head

A stack shared by several pushers, none of which holds a lock from end to end. A push first reads
the head, and later writes a head whose next node is the one it read. A chain is never edited once
it is published, so the head can be taken to be the list of the pushes that are on it.

* `HeadEvent ι`: a push reads the head or writes it.
* `headRun es`: the pushes on the head after the events, newest first.
* `Complete es`: every push that occurs reads once and then writes once.
* `Serial es`: each read is followed at once by the write of the same push.

Results:
* `head_sub_written`: only a push that has written is on the head.
* `written_iff_serial`: every push that has written is on the head exactly when the events are serial.
-/

/-- What happens at a shared head. -/
inductive HeadEvent (ι : Type) where
  /-- The push reads the head. -/
  | read (i : ι)
  /-- The push makes its node, in front of what it read, the head. -/
  | write (i : ι)
deriving DecidableEq, Repr

namespace HeadEvent

variable {ι : Type}

/-- The push an event belongs to. -/
def push : HeadEvent ι → ι
  | read i => i
  | write i => i

@[simp] theorem push_read (i : ι) : (read i).push = i := rfl

@[simp] theorem push_write (i : ι) : (write i).push = i := rfl

end HeadEvent

/-- The head and what each push read there. -/
structure HeadState (ι : Type) where
  head : List ι
  seen : ι → List ι

namespace HeadState

variable {ι : Type} [DecidableEq ι]

/-- One event. -/
def step (st : HeadState ι) : HeadEvent ι → HeadState ι
  | .read i => { st with seen := Function.update st.seen i st.head }
  | .write i => { st with head := i :: st.seen i }

end HeadState

open HeadEvent

variable {ι : Type} [DecidableEq ι]

/-- The state after some events, from a head no push is on. -/
def headRun (es : List (HeadEvent ι)) : HeadState ι := es.foldl HeadState.step ⟨[], fun _ => []⟩

/-- Every push that occurs reads once and then writes once. -/
def Complete (es : List (HeadEvent ι)) : Prop :=
  ∀ i, es.filter (fun e => e.push = i) = [] ∨ es.filter (fun e => e.push = i) = [read i, write i]

/-- Each read is followed at once by the write of the same push. -/
def Serial : List (HeadEvent ι) → Prop
  | [] => True
  | [_] => False
  | e :: e' :: es => (∃ i, e = read i ∧ e' = write i) ∧ Serial es

theorem headRun_nil : headRun ([] : List (HeadEvent ι)) = ⟨[], fun _ => []⟩ := rfl

theorem headRun_append (es es' : List (HeadEvent ι)) :
    headRun (es ++ es') = es'.foldl HeadState.step (headRun es) := List.foldl_append

theorem headRun_read (es : List (HeadEvent ι)) (i : ι) :
    headRun (es ++ [read i]) =
      ⟨(headRun es).head, Function.update (headRun es).seen i (headRun es).head⟩ := by
  rw [headRun_append]
  rfl

theorem headRun_write (es : List (HeadEvent ι)) (i : ι) :
    headRun (es ++ [write i]) = ⟨i :: (headRun es).seen i, (headRun es).seen⟩ := by
  rw [headRun_append]
  rfl

/-! ## What is on the head -/

/-- Only a push that has written is on the head, or was seen there. -/
theorem sub_written (es : List (HeadEvent ι)) :
    (∀ i ∈ (headRun es).head, write i ∈ es) ∧ ∀ j, ∀ i ∈ (headRun es).seen j, write i ∈ es := by
  induction es using List.reverseRecOn with
  | nil =>
    rw [headRun_nil]
    exact ⟨fun i hi => absurd hi List.not_mem_nil, fun j i hi => absurd hi List.not_mem_nil⟩
  | append_singleton es e ih =>
    obtain ⟨hhead, hseen⟩ := ih
    cases e with
    | read k =>
      rw [headRun_read]
      refine ⟨fun i hi => List.mem_append_left _ (hhead i hi), fun j i hi => ?_⟩
      by_cases hj : j = k
      · subst hj
        simp only [Function.update_self] at hi
        exact List.mem_append_left _ (hhead i hi)
      · simp only [Function.update_of_ne hj] at hi
        exact List.mem_append_left _ (hseen j i hi)
    | write k =>
      rw [headRun_write]
      refine ⟨fun i hi => ?_, fun j i hi => List.mem_append_left _ (hseen j i hi)⟩
      rcases List.mem_cons.mp hi with rfl | hi
      · exact List.mem_append_right _ (List.mem_singleton_self _)
      · exact List.mem_append_left _ (hseen k i hi)

theorem head_sub_written {es : List (HeadEvent ι)} {i : ι} (h : i ∈ (headRun es).head) :
    write i ∈ es := (sub_written es).1 i h

/-- Events of other pushes leave what a push has seen. -/
theorem seen_append {es es' : List (HeadEvent ι)} {i : ι} (h : ∀ e ∈ es', e.push ≠ i) :
    (headRun (es ++ es')).seen i = (headRun es).seen i := by
  induction es' using List.reverseRecOn with
  | nil => rw [List.append_nil]
  | append_singleton es' e ih =>
    have hi := ih fun e he => h e (List.mem_append_left _ he)
    have hne := h e (List.mem_append_right _ (List.mem_singleton_self _))
    rw [← List.append_assoc]
    cases e with
    | read k =>
      rw [headRun_read]
      exact (Function.update_of_ne (Ne.symm hne) ..).trans hi
    | write k =>
      rw [headRun_write]
      exact hi

/-- A serial run leaves every push on the head. -/
theorem Serial.head : ∀ {es : List (HeadEvent ι)}, Serial es → ∀ (st : HeadState ι) (i : ι),
    write i ∈ es ∨ i ∈ st.head → i ∈ (es.foldl HeadState.step st).head
  | [], _, _, _, hi => hi.resolve_left List.not_mem_nil
  | [_], h, _, _, _ => h.elim
  | _ :: _ :: es, ⟨⟨j, rfl, rfl⟩, h⟩, st, i, hi => by
    refine Serial.head h _ i ?_
    show write i ∈ es ∨ i ∈ j :: Function.update st.seen j st.head j
    rw [Function.update_self, List.mem_cons]
    rcases hi with hi | hi
    · rcases List.mem_cons.mp hi with hi | hi
      · cases hi
      rcases List.mem_cons.mp hi with hi | hi
      · exact Or.inr (Or.inl (HeadEvent.write.inj hi))
      · exact Or.inl hi
    · exact Or.inr (Or.inr hi)

omit [DecidableEq ι] in
theorem Serial.append_pair : ∀ {es : List (HeadEvent ι)}, Serial es → ∀ i : ι,
    Serial (es ++ [read i, write i])
  | [], _, i => ⟨⟨i, rfl, rfl⟩, trivial⟩
  | [_], h, _ => h.elim
  | _ :: _ :: _, ⟨hp, h⟩, i => ⟨hp, Serial.append_pair h i⟩

/-! ## Complete runs -/

/-- A complete run ends with a write, and holds the read of it before. -/
theorem Complete.concat {es : List (HeadEvent ι)} {e : HeadEvent ι} (h : Complete (es ++ [e])) :
    ∃ i pre post, e = write i ∧ es = pre ++ read i :: post ∧
      (∀ x ∈ pre, x.push ≠ i) ∧ ∀ x ∈ post, x.push ≠ i := by
  have hlast : (es ++ [e]).filter (fun x => x.push = e.push) =
      es.filter (fun x => x.push = e.push) ++ [e] := by
    rw [List.filter_append]
    simp
  rcases h e.push with hn | hp
  · rw [hlast] at hn
    cases (List.append_eq_nil_iff.mp hn).2
  rw [hlast] at hp
  obtain ⟨hread, hwrite⟩ := List.append_inj' (hp.trans (List.singleton_append ..).symm) rfl
  obtain ⟨pre, post, rfl, hpre, -, hpost⟩ := List.filter_eq_cons_iff.mp hread
  refine ⟨e.push, pre, post, List.singleton_inj.mp hwrite, rfl, fun x hx => ?_, fun x hx => ?_⟩
  · simpa using hpre x hx
  · simpa using List.filter_eq_nil_iff.mp hpost x hx

/-- What is left of a complete run when its last push read last, too. -/
theorem Complete.drop_pair {es : List (HeadEvent ι)} {i : ι}
    (h : Complete (es ++ [read i, write i])) (hne : ∀ e ∈ es, e.push ≠ i) : Complete es := by
  intro j
  have hj := h j
  rw [List.filter_append] at hj
  by_cases hij : i = j
  · subst hij
    exact Or.inl (List.filter_eq_nil_iff.mpr fun e he => by simpa using hne e he)
  · have hpair : [read i, write i].filter (fun e => e.push = j) = [] := by
      simp [hij]
    rwa [hpair, List.append_nil] at hj

/-- A push that occurs after all its writes does not occur. -/
theorem Complete.write_last {pre post : List (HeadEvent ι)} (h : Complete (pre ++ post))
    {e : HeadEvent ι} (he : e ∈ post) (hw : write e.push ∈ pre) : False := by
  have hmem₁ : write e.push ∈ pre.filter (fun x => x.push = e.push) :=
    List.mem_filter.mpr ⟨hw, by simp⟩
  have hmem₂ : e ∈ post.filter (fun x => x.push = e.push) := List.mem_filter.mpr ⟨he, by simp⟩
  have hc := h e.push
  rw [List.filter_append] at hc
  rcases hc with hc | hc
  · rw [(List.append_eq_nil_iff.mp hc).1] at hmem₁
    cases hmem₁
  · -- the write is the second of two events, so the part after it is empty
    obtain ⟨a, as, ha⟩ := List.exists_cons_of_ne_nil (List.ne_nil_of_mem hmem₁)
    obtain ⟨b, bs, hb⟩ := List.exists_cons_of_ne_nil (List.ne_nil_of_mem hmem₂)
    rw [ha, hb] at hc
    rw [ha] at hmem₁
    cases as with
    | nil =>
      obtain ⟨rfl, -⟩ := List.cons.inj hc
      cases List.mem_singleton.mp hmem₁
    | cons c cs =>
      have hlen := congrArg List.length hc
      simp only [List.length_append, List.length_cons, List.length_nil] at hlen
      omega

/-- **No push is lost exactly when the events are serial.** If two pushes overlap, the one that
writes first is not on what the other read, so the other's write takes it off the head. -/
theorem written_iff_serial {es : List (HeadEvent ι)} (h : Complete es) :
    (∀ i, write i ∈ es → i ∈ (headRun es).head) ↔ Serial es := by
  refine ⟨fun hall => ?_, fun hs i hi => hs.head _ i (Or.inl hi)⟩
  induction hn : es.length using Nat.strongRecOn generalizing es with
  | _ n ih =>
  rcases List.eq_nil_or_concat es with rfl | ⟨front, e, he⟩
  · exact trivial
  rw [List.concat_eq_append] at he
  subst he
  obtain ⟨i, pre, post, rfl, rfl, hpre, hpost⟩ := h.concat
  have hhead : (headRun ((pre ++ read i :: post) ++ [write i])).head = i :: (headRun pre).head := by
    have hseen : (headRun (pre ++ read i :: post)).seen i = (headRun pre).head := by
      rw [← List.singleton_append, ← List.append_assoc, seen_append hpost, headRun_read]
      exact Function.update_self ..
    rw [headRun_write, hseen]
  have hassoc : (pre ++ read i :: post) ++ [write i] = pre ++ (read i :: (post ++ [write i])) := by
    simp
  -- a push between the read and the write would have written before the read
  have hnil : post = [] := by
    refine List.eq_nil_iff_forall_not_mem.mpr fun x hx => ?_
    have hx' : x ∈ read i :: (post ++ [write i]) :=
      List.mem_cons_of_mem _ (List.mem_append_left _ hx)
    have hwx : write x.push ∈ (pre ++ read i :: post) ++ [write i] := by
      have hmem : x ∈ ((pre ++ read i :: post) ++ [write i]).filter (fun y => y.push = x.push) :=
        List.mem_filter.mpr ⟨by rw [hassoc]; exact List.mem_append_right _ hx', by simp⟩
      have hsub : write x.push ∈ [read x.push, write x.push] := by simp
      rcases h x.push with hc | hc
      · rw [hc] at hmem
        cases hmem
      · rw [← hc] at hsub
        exact (List.mem_filter.mp hsub).1
    have hon := hall _ hwx
    rw [hhead] at hon
    rw [hassoc] at h
    exact h.write_last hx' (head_sub_written ((List.mem_cons.mp hon).resolve_left (hpost x hx)))
  subst hnil
  have heq : (pre ++ [read i]) ++ [write i] = pre ++ [read i, write i] := by simp
  rw [heq] at h ⊢
  refine Serial.append_pair (ih pre.length ?_ (h.drop_pair hpre) (fun j hj => ?_) rfl) i
  · rw [← hn]
    simp only [List.length_append, List.length_cons, List.length_nil]
    omega
  · have hon := hall j (List.mem_append_left _ (List.mem_append_left _ hj))
    rw [hhead] at hon
    exact (List.mem_cons.mp hon).resolve_left (hpre _ hj)
