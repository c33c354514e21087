import NeoPostGraph.Annotation.DropName
import NeoPostGraph.Postgres.Xact

/-!
# Annotation changes and rollback

The `a_itemptr` of a vertex or an edge is overwritten in place by every change of its annotations, and
nothing moves it back. `vertex_out` and `edge_out` look at the one bitset it names and print nothing
when that is not live; the next change asks that it be live. So while a change is open in another
session, and for good once it has aborted, the bitset before it is out of reach.

* `AnnotEvent`, `holdsAfter`: the calls on one entity that returned, and what they add up to.
* `BitsetRun`: any number of transactions call and commit or abort, one call at a time.
* `RollsBack`: every session decodes the effect of the committed calls and its own, and the next change
  returns when no other session has one open.

Results:
* `BitsetRun.inv`: every call but the last writer's is committed.
* `rollsBack_iff`: the annotations roll back exactly when no caller has aborted and, while one is still
  open, the committed calls leave nothing to decode.
-/

namespace NeoPostGraph

open SlottedPage

variable {db db' : AnnotDb} {g : BytesBehind} {kind : LabelKind} {s : Session}
  {labelId id base : Nat} {annot a : String} {names : Names} {x : XactState} {own : List Nat}
  {es : List AnnotEvent}

/-! ## What the calls add up to -/

/-- An insert with annotations, or a change that returned. -/
inductive AnnotEvent where
  | insert (fxid : Nat) (annots : List String)
  | change (fxid : Nat) (change : BitChange) (annot : String)
deriving DecidableEq, Repr

/-- The transaction of the call. -/
def AnnotEvent.fxid : AnnotEvent → Nat
  | insert fxid _ => fxid
  | change fxid _ _ => fxid

/-- Whether the entity has an annotation after the call. -/
def AnnotEvent.effect (annot : String) (before : Bool) : AnnotEvent → Bool
  | insert _ annots => decide (annot ∈ annots)
  | change _ c named => if named = annot then decide (c = .set) else before

/-- Whether the entity has an annotation after these calls. -/
def holdsAfter (es : List AnnotEvent) (annot : String) : Bool :=
  es.foldl (AnnotEvent.effect annot) false

theorem holdsAfter_concat (es : List AnnotEvent) (e : AnnotEvent) (annot : String) :
    holdsAfter (es ++ [e]) annot = e.effect annot (holdsAfter es annot) := by
  unfold holdsAfter
  rw [List.foldl_append]
  rfl

/-- The calls whose work a session sees. -/
def seenEvents (x : XactState) (own : List Nat) (es : List AnnotEvent) : List AnnotEvent :=
  es.filter fun e => x.seen own e.fxid

/-! ## Histories -/

/-- The transactions go on. -/
def AnnotDb.setXacts (db : AnnotDb) (x : XactState) : AnnotDb :=
  { db with graph := { db.graph with xacts := x } }

/-- The bitset of an entity holds these calls: the tuple the record names was written by the last of
them and nobody has stamped it, and every other caller is committed. -/
structure HoldsEvents (x : XactState) (base : Nat) (names : Names) (t : AnnotTuple)
    (es : List AnnotEvent) : Prop where
  begun : x.Begun base t.hdr.xmin
  unstamped : t.hdr.xmax = invalidFullTransactionId
  writer : ∃ e ∈ es, e.fxid = t.hdr.xmin
  others : ∀ e ∈ es, e.fxid = t.hdr.xmin ∨ x.CommittedSince base e.fxid
  length : names.length ≤ 8 * ownBytes t.bits.length
  bits : ∀ i a, names[i]? = some (some a) →
    (ByteBits.bit t.bits i = true ↔ bitPosition names a = some i ∧ holdsAfter es a = true)

/-- **An entity of a label with annotations**, between calls: its record names no bitset, or one that
holds the calls on the entity. -/
structure EntityBits (kind : LabelKind) (labelId id base : Nat) (names : Names) (db : AnnotDb)
    (es : List AnnotEvent) : Prop where
  ok : SchemaOk db kind labelId names
  block : db.HasSchemaBlock kind labelId
  /-- The schema was stored, and has a name. -/
  fits : Fits (schemaTupleSize names)
  named : ∃ a, some a ∈ names
  base_le : base ≤ db.graph.xacts.nextFxid
  room : db.graph.xacts.nextFxid ≤ base + 2 ^ 32
  normal : firstNormalTransactionId ≤ xidFromFull db.graph.xacts.nextFxid
  /-- Only names of the schema are set. -/
  valid : ∀ a, holdsAfter es a = true → some a ∈ names
  bitset : ∃ tbl rec, db.annotationsTbl kind labelId = some tbl ∧
    db.pmapRec labelId id kind = some rec ∧
    ((keptAnnotTid kind tbl rec.aItemptr).isValid = false ∧ es = [] ∨
      ∃ t, (keptAnnotTid kind tbl rec.aItemptr).isValid = true ∧
        tbl.get (keptAnnotTid kind tbl rec.aItemptr) = some t ∧
        HoldsEvents db.graph.xacts base names t es)

/-- What an insert leaves: no bitset, or the insert's own. -/
def InsertedOnly (es : List AnnotEvent) : Prop :=
  es = [] ∨ ∃ fxid annots, es = [.insert fxid annots]

/-- **The histories of one entity**: transactions begin, change its annotations and commit or abort. A
call that fails is no event. -/
inductive BitsetRun (kind : LabelKind) (labelId id base : Nat) (names : Names) :
    AnnotDb → List AnnotEvent → Prop
  | inserted {db : AnnotDb} {es : List AnnotEvent}
      (h : EntityBits kind labelId id base names db es) (hes : InsertedOnly es)
      (hroom : db.graph.xacts.nextFxid ≤ base + 2 ^ 31) : BitsetRun kind labelId id base names db es
  | begin {db : AnnotDb} {es : List AnnotEvent} (h : BitsetRun kind labelId id base names db es)
      (hroom : db.graph.xacts.begin.nextFxid ≤ base + 2 ^ 31) :
      BitsetRun kind labelId id base names (db.setXacts db.graph.xacts.begin) es
  | commit {db : AnnotDb} {es : List AnnotEvent} {t : Nat}
      (h : BitsetRun kind labelId id base names db es) (ht : db.graph.xacts.Open base t) :
      BitsetRun kind labelId id base names (db.setXacts (db.graph.xacts.commit t)) es
  | abort {db : AnnotDb} {es : List AnnotEvent} {t : Nat}
      (h : BitsetRun kind labelId id base names db es) (ht : db.graph.xacts.Open base t) :
      BitsetRun kind labelId id base names (db.setXacts (db.graph.xacts.abort t)) es
  | call {db db' : AnnotDb} {es : List AnnotEvent} (h : BitsetRun kind labelId id base names db es)
      (s : Session) (hs : db.graph.xacts.Open base s.fxid) (c : BitChange) (annot : String)
      (hr : (changeAnnot kind c s labelId id annot).Runs db () db') :
      BitsetRun kind labelId id base names db' (es ++ [.change s.fxid c annot])
  | failed {db db' : AnnotDb} {es : List AnnotEvent} {e : AnnotErr}
      (h : BitsetRun kind labelId id base names db es) (s : Session)
      (hs : db.graph.xacts.Open base s.fxid) (c : BitChange) (annot : String)
      (hr : (changeAnnot kind c s labelId id annot).exec db = (.error e, db')) :
      BitsetRun kind labelId id base names db' es

/-- **The annotations of an entity roll back.** -/
structure RollsBack (kind : LabelKind) (labelId id base : Nat) (names : Names) (db : AnnotDb)
    (es : List AnnotEvent) : Prop where
  /-- Every session, with a transaction or without, decodes what the calls it sees add up to. -/
  decoded : ∀ g (reader : Option Nat), (∀ t ∈ reader, db.graph.xacts.Open base t) → ∀ a,
    (db.Decodes g kind db.graph.xacts reader.toList labelId id a ↔
      holdsAfter (seenEvents db.graph.xacts reader.toList es) a = true)
  /-- A change returns, now or in the next transaction, when no other transaction has one open. -/
  returns : ∀ db₁, db₁ = db ∨ db₁ = db.setXacts db.graph.xacts.begin → ∀ s c annot,
    db₁.graph.xacts.Open base s.fxid →
    (∀ e ∈ es, e.fxid ≠ s.fxid → db₁.graph.xacts.status e.fxid ≠ .inProgress) →
      some annot ∈ names → ∃ db', (changeAnnot kind c s labelId id annot).Runs db₁ () db'

/-! ## Liveness of an unstamped tuple -/

theorem not_valid_of_unstamped {hdr : RecordHeader} (h : hdr.xmax = invalidFullTransactionId) :
    fullXidIsValid hdr.xmax = false := by
  rw [h]
  rfl

/-- A tuple nobody has stamped is live to those who see its writer. -/
theorem live_of_unstamped {hdr : RecordHeader} (hroom : x.nextFxid ≤ base + 2 ^ 32)
    (hown : ∀ o ∈ own, x.Begun base o) (hmin : x.Begun base hdr.xmin)
    (hmax : hdr.xmax = invalidFullTransactionId) :
    npEntityTupleIsLive x own hdr = x.seen own hdr.xmin := by
  unfold npEntityTupleIsLive XactState.seen
  simp only [hmin.valid, not_valid_of_unstamped hmax,
    XactState.transactionIdIsCurrent_eq hroom hown hmin,
    XactState.transactionIdIsInProgress_eq hroom hmin, XactState.transactionIdDidCommit_eq hroom hmin]
  by_cases hw : hdr.xmin ∈ own <;> cases hst : x.status hdr.xmin <;> simp [hw]

theorem xmaxOther_of_unstamped {hdr : RecordHeader} (hmax : hdr.xmax = invalidFullTransactionId) :
    npEntityTupleXmaxOther x own hdr = false := by
  unfold npEntityTupleXmaxOther
  rw [not_valid_of_unstamped hmax]
  rfl

/-! ## The invariant -/

theorem HoldsEvents.later {y : XactState} {t : AnnotTuple} (h : HoldsEvents x base names t es)
    (hl : XactState.Later base x y) : HoldsEvents y base names t es :=
  ⟨h.begun.later hl, h.unstamped, h.writer, fun e he => (h.others e he).imp_right (·.later hl),
    h.length, h.bits⟩

/-- The transactions go on; the entity stays as it is. -/
theorem EntityBits.setXacts {y : XactState} (h : EntityBits kind labelId id base names db es)
    (hl : XactState.Later base db.graph.xacts y) (hroom : y.nextFxid ≤ base + 2 ^ 32)
    (hnormal : firstNormalTransactionId ≤ xidFromFull y.nextFxid) :
    EntityBits kind labelId id base names (db.setXacts y) es := by
  obtain ⟨tbl, rec, htbl, hrec, hbits⟩ := h.bitset
  refine ⟨h.ok.congr rfl rfl rfl, h.block, h.fits, h.named, Nat.le_trans h.base_le hl.next_le, hroom,
    hnormal, h.valid, tbl, rec, htbl, hrec, hbits.imp_right ?_⟩
  rintro ⟨t, hvalid, ht, hholds⟩
  exact ⟨t, hvalid, ht, hholds.later hl⟩

/-- The pointer that is kept is the record's. -/
theorem keptAnnotTid_eq {tbl : Table AnnotTuple} {tid : ItemPointer}
    (h : (keptAnnotTid kind tbl tid).isValid = true) : keptAnnotTid kind tbl tid = tid := by
  cases kind with
  | vertex => rfl
  | edge =>
    unfold keptAnnotTid at h ⊢
    dsimp only at h ⊢
    split_ifs at h ⊢
    · cases h
    · rfl

/-- A pointer to a stored tuple is kept. -/
theorem keptAnnotTid_of_get {tbl : Table AnnotTuple} {tid : ItemPointer} {t : AnnotTuple}
    (h : tbl.get tid = some t) : keptAnnotTid kind tbl tid = tid := by
  cases kind with
  | vertex => rfl
  | edge =>
    unfold keptAnnotTid
    dsimp only
    rw [if_neg fun hpast => Nat.not_le.mpr (nblocks_of_get h) hpast.2]

/-- A pointer that is not kept names no tuple. -/
theorem bitset_of_dropped {tbl : Table AnnotTuple} {rec : PmapRec}
    (htbl : db.annotationsTbl kind labelId = some tbl)
    (hrec : db.pmapRec labelId id kind = some rec)
    (h : (keptAnnotTid kind tbl rec.aItemptr).isValid = false) :
    db.bitset kind labelId id = none := by
  cases hb : db.bitset kind labelId id with
  | none => rfl
  | some b =>
    obtain ⟨rec', tbl', hrec', htbl', hvalid, htid, ht⟩ := bitset_eq_some.mp hb
    obtain rfl := Option.some.inj (htbl.symm.trans htbl')
    obtain rfl := Option.some.inj (hrec.symm.trans hrec')
    rw [← htid] at ht
    rw [keptAnnotTid_of_get ht, hvalid] at h
    cases h

/-- **What is decoded**: the names the calls add up to, for those who see the last writer. -/
theorem EntityBits.decodes_iff (h : EntityBits kind labelId id base names db es)
    (hown : ∀ o ∈ own, db.graph.xacts.Open base o) :
    db.Decodes g kind db.graph.xacts own labelId id a ↔
      (∃ tid t, db.bitset kind labelId id = some (tid, t) ∧
        db.graph.xacts.seen own t.hdr.xmin = true) ∧ holdsAfter es a = true := by
  obtain ⟨tbl, rec, htbl, hrec, hbits⟩ := h.bitset
  rw [h.ok.decodes_iff (fun _ => h.block) htbl]
  rcases hbits with ⟨hinvalid, rfl⟩ | ⟨t, hvalid, ht, hholds⟩
  · rw [bitset_of_dropped htbl hrec hinvalid]
    constructor
    · rintro ⟨tid, t, hb, -⟩
      cases hb
    · rintro ⟨⟨tid, t, hb, -⟩, -⟩
      cases hb
  · have hkept := keptAnnotTid_eq hvalid
    rw [hkept] at hvalid ht
    have hb : db.bitset kind labelId id = some (rec.aItemptr, t) :=
      bitset_eq_some.mpr ⟨rec, tbl, hrec, htbl, hvalid, rfl, ht⟩
    have hlive := live_of_unstamped h.room (fun o ho => (hown o ho).1) hholds.begun hholds.unstamped
    have hlen := hholds.length
    rw [hb]
    constructor
    · rintro ⟨tid, t', he, hl, i, hi, hbit⟩
      cases he
      rw [hlive] at hl
      have hlt : i < names.length := (List.getElem?_eq_some_iff.mp hi).1
      rw [bitAt_eq (by omega)] at hbit
      exact ⟨⟨_, _, rfl, hl⟩, ((hholds.bits i a hi).mp hbit).2⟩
    · rintro ⟨⟨tid, t', he, hseen⟩, hholdsa⟩
      cases he
      obtain ⟨pos, hpos⟩ := exists_bitPosition (h.valid a hholdsa)
      have hi := getElem?_of_bitPosition hpos
      have hlt := lt_of_bitPosition hpos
      refine ⟨_, _, rfl, by rw [hlive]; exact hseen, pos, hi, ?_⟩
      rw [bitAt_eq (by omega)]
      exact (hholds.bits pos a hi).mpr ⟨hpos, hholdsa⟩

/-- The bits of a change hold the calls with the change. -/
theorem changed_bits {c : BitChange} {pos i fxid : Nat} {old : List Nat}
    (hpos : bitPosition names annot = some pos) (hi : names[i]? = some (some a))
    (hold : ByteBits.bit old i = true ↔ bitPosition names a = some i ∧ holdsAfter es a = true) :
    ByteBits.bit (c.apply (copyBits old (byteSizeOf names)) pos) i = true ↔
      bitPosition names a = some i ∧ holdsAfter (es ++ [.change fxid c annot]) a = true := by
  rw [bit_changed hpos hi, holdsAfter_concat]
  unfold AnnotEvent.effect
  by_cases hip : i = pos
  · subst hip
    have hsame : annot = a := by
      have hat := (getElem?_of_bitPosition hpos).symm.trans hi
      exact Option.some.inj (Option.some.inj hat)
    subst hsame
    simp [hpos]
  · rw [if_neg hip, hold]
    refine and_congr_right fun ha => ?_
    have hne : annot ≠ a := fun he => by
      rw [he, ha] at hpos
      exact hip (Option.some.inj hpos)
    dsimp only
    rw [if_neg hne]

/-- The state of the bitset that a change starts from. -/
theorem EntityBits.start {c : BitChange} {pos : Nat} {tbl tbl' : Table AnnotTuple}
    {oldTid newTid : ItemPointer} {bits : List Nat} {names' : Names}
    (h : EntityBits kind labelId id base names db es) (hs : db.graph.xacts.Open base s.fxid)
    (hc : AnnotChange db db' kind c s labelId id annot names' pos tbl tbl' oldTid newTid bits) :
    ∃ old, bits = copyBits old (byteSizeOf names') ∧
      (oldTid.isValid = true → (tbl.get oldTid).isSome) ∧
      (∀ i a, names[i]? = some (some a) →
        (ByteBits.bit old i = true ↔ bitPosition names a = some i ∧ holdsAfter es a = true)) ∧
      ∀ e ∈ es, e.fxid = s.fxid ∨ db.graph.xacts.CommittedSince base e.fxid := by
  obtain ⟨tbl₁, rec, htbl, hrec, hbits⟩ := h.bitset
  obtain ⟨rec', hrec', hold⟩ := hc.record
  obtain rfl := Option.some.inj (htbl.symm.trans hc.table)
  obtain rfl := Option.some.inj (hrec.symm.trans hrec')
  rw [← hold] at hbits
  rcases hbits with ⟨hinvalid, rfl⟩ | ⟨t, hvalid, ht, hholds⟩
  · cases hc.start with
    | first _ =>
      refine ⟨[], rfl, fun hv => ?_, fun i a _ => ?_, fun e he => ?_⟩
      · cases hinvalid.symm.trans hv
      · rw [ByteBits.bit_eq_false (by simp)]
        simp [holdsAfter]
      · cases he
    | lost hv _ _ => cases hinvalid.symm.trans hv
    | old hv _ _ _ => cases hinvalid.symm.trans hv
  · cases hc.start with
    | first hv => cases hvalid.symm.trans hv
    | lost _ _ hget => cases ht.symm.trans hget
    | old _ hget hlive _ =>
      obtain rfl := Option.some.inj (ht.symm.trans hget)
      refine ⟨t.bits, rfl, fun _ => by rw [ht]; rfl, hholds.bits, fun e he => ?_⟩
      rw [live_of_unstamped h.room (fun o ho => by rw [List.mem_singleton.mp ho]; exact hs.1)
        hholds.begun hholds.unstamped, XactState.seen, Bool.or_eq_true, decide_eq_true_eq,
        decide_eq_true_eq] at hlive
      rcases hholds.others e he with hw | hcomm
      · rcases hlive with hself | hcommitted
        · exact .inl (hw.trans (List.mem_singleton.mp hself))
        · rw [hw]
          exact .inr ⟨hholds.begun, hcommitted⟩
      · exact .inr hcomm

/-- **A change that returns keeps the invariant.** -/
theorem EntityBits.call {c : BitChange} {u : Unit} (h : EntityBits kind labelId id base names db es)
    (hs : db.graph.xacts.Open base s.fxid)
    (hr : (changeAnnot kind c s labelId id annot).Runs db u db') :
    EntityBits kind labelId id base names db' (es ++ [.change s.fxid c annot]) := by
  obtain ⟨names', pos, tbl, tbl', oldTid, newTid, bits, hc⟩ := changeAnnot_inv hr
  obtain ⟨row, hrow, hmap⟩ := hc.schema
  obtain ⟨rfl, -⟩ := h.ok.mapArray hrow hmap
  obtain ⟨old, hbits, hstored, hold, hothers⟩ := h.start hs hc
  obtain ⟨rec, hrec, -⟩ := hc.record
  have hx := hc.redirect.xacts
  have hnew := hc.get_new hstored hc.stamp
  have hrec' : db'.pmapRec labelId id kind = some (rec.setAItemptr newTid) := by
    rw [hc.redirect.slots, if_pos ⟨rfl, rfl, rfl⟩, hrec]
    rfl
  have haptr : (rec.setAItemptr newTid).aItemptr = newTid := by cases rec <;> rfl
  have hkept {t : Table AnnotTuple} {b : AnnotTuple} (hg : t.get newTid = some b) :
      keptAnnotTid kind t (rec.setAItemptr newTid).aItemptr = newTid := by
    rw [haptr]
    exact keptAnnotTid_of_get hg
  refine ⟨hc.redirect.schemaOk h.ok, hc.redirect.hasSchemaBlock h.block, h.fits, h.named,
    by rw [hx]; exact h.base_le, by rw [hx]; exact h.room, by rw [hx]; exact h.normal,
    fun a ha => ?_, _, _, hc.stamp, hrec',
    .inr ⟨newAnnotTuple s id oldTid (c.apply bits pos), ?_, ?_, ?_⟩⟩
  · rw [holdsAfter_concat] at ha
    unfold AnnotEvent.effect at ha
    dsimp only at ha
    split_ifs at ha with hnamed
    · rw [← hnamed]
      exact List.mem_of_getElem? (getElem?_of_bitPosition hc.position)
    · exact h.valid a ha
  · rw [hkept hnew]
    exact Table.write_valid hc.write
  · rw [hkept hnew]
    exact hnew
  · rw [hx]
    refine ⟨hs.1, rfl, ⟨_, List.mem_concat_self, rfl⟩, fun e he => ?_, ?_, fun i a hi => ?_⟩
    · rcases List.mem_append.mp he with hold' | hlast
      · exact hothers e hold'
      · rw [List.mem_singleton.mp hlast]
        exact .inl rfl
    · refine le_ownBytes_of_length ?_
      rw [← length_of_startBits hc.start]
      exact List.length_modify ..
    · dsimp only [newAnnotTuple]
      rw [hbits]
      exact changed_bits hc.position hi (hold i a hi)

/-- **A call that fails changes nothing.** -/
theorem EntityBits.failed {c : BitChange} {e : AnnotErr}
    (h : EntityBits kind labelId id base names db es)
    (hr : (changeAnnot kind c s labelId id annot).exec db = (.error e, db')) : db' = db := by
  obtain ⟨tbl, rec, htbl, hrec, hbits⟩ := h.bitset
  refine changeAnnot_error (fun rec' tbl' hrec' htbl' hvalid => ?_) hr
  obtain rfl := Option.some.inj (htbl.symm.trans htbl')
  obtain rfl := Option.some.inj (hrec.symm.trans hrec')
  rcases hbits with ⟨hinvalid, -⟩ | ⟨t, -, ht, -⟩
  · cases hinvalid.symm.trans hvalid
  · exact ⟨t, ht⟩

/-- A history uses fewer ids than wrap around. -/
theorem BitsetRun.room (h : BitsetRun kind labelId id base names db es) :
    db.graph.xacts.nextFxid ≤ base + 2 ^ 31 ∧ EntityBits kind labelId id base names db es := by
  induction h with
  | inserted h _ hroom => exact ⟨hroom, h⟩
  | begin _ hroom ih =>
    refine ⟨hroom, ih.2.setXacts (XactState.later_begin base _) ?_ (fullTransactionIdAdvance_normal _)⟩
    omega
  | commit _ _ ih =>
    exact ⟨ih.1, ih.2.setXacts (XactState.later_commit base _ _) ih.2.room ih.2.normal⟩
  | abort _ ht ih =>
    exact ⟨ih.1, ih.2.setXacts (XactState.later_abort ht) ih.2.room ih.2.normal⟩
  | call _ s hs c annot hr ih =>
    obtain ⟨_, _, _, _, _, _, _, hc⟩ := changeAnnot_inv hr
    rw [hc.redirect.xacts]
    exact ⟨ih.1, ih.2.call hs hr⟩
  | failed _ s _ c annot hr ih =>
    rw [ih.2.failed hr]
    exact ih

/-- **In every state of a history the bitset holds the calls**, and every one but the last writer's is
committed. -/
theorem BitsetRun.inv (h : BitsetRun kind labelId id base names db es) :
    EntityBits kind labelId id base names db es := h.room.2

/-! ## The next change -/

theorem le_sum_textSpace (h : names.all Option.isSome = true) :
    4 * names.length ≤ (names.map textSpace).sum := by
  induction names with
  | nil => exact Nat.zero_le _
  | cons name rest ih =>
    rw [List.all_cons, Bool.and_eq_true] at h
    have hrest := ih h.2
    cases name with
    | none => cases h.1
    | some text =>
      have hspace : 4 ≤ textSpace (some text) := by
        show 4 ≤ (4 + text.utf8ByteSize + 3) / 4 * 4
        omega
      rw [List.map_cons, List.sum_cons, List.length_cons]
      omega

/-- An array takes more space than a bit for each name. -/
theorem byteSizeOf_lt_arrayVarsize (names : Names) : 4 + byteSizeOf names ≤ arrayVarsize names := by
  unfold arrayVarsize byteSizeOf
  split_ifs with hnil hall
  · rw [hnil]
    decide
  · have hsum := le_sum_textSpace hall
    omega
  · have halign := le_maxAlign (24 + (names.length + 7) / 8)
    omega

/-- A label whose schema fits on a page has bitsets that fit. -/
theorem fits_bitset (h : Fits (schemaTupleSize names)) :
    Fits (annotTupleSize (byteSizeOf names)) := by
  have hle := byteSizeOf_lt_arrayVarsize names
  unfold Fits schemaTupleSize annotTupleSize maxAlign at *
  omega

/-- The array a call resolves the annotation in. -/
theorem SchemaOk.mapArray_ok {row : LabelRow} (h : SchemaOk db kind labelId names)
    (hblock : db.HasSchemaBlock kind labelId) (hne : names ≠ [])
    (hrow : (db.labels kind).find? (fun row => row.id = labelId) = some row) :
    db.mapArray kind row = .ok (some names) := by
  obtain ⟨row', hrow', hid, hnames, -⟩ := h.row
  obtain rfl := Option.some.inj (hrow.symm.trans hrow')
  have hann : row.annotationMap = some names := by
    cases hmap : row.annotationMap with
    | none =>
      rw [hmap] at hnames
      exact absurd hnames.symm hne
    | some ns =>
      rw [hmap] at hnames
      exact congrArg some hnames
  unfold AnnotDb.mapArray
  rw [hid, hblock.read]
  dsimp only [bind, Except.bind]
  have hlatest := latestSchemaTid_eq db labelId
  cases hrec : db.annotSchemaPhysMap.table.get (schemaSlot labelId) with
  | none => exact congrArg Except.ok hann
  | some r =>
    rw [hrec] at hlatest
    dsimp only [Option.map_some, Option.getD_some] at hlatest ⊢
    rw [hlatest]
    split_ifs with hvalid
    · obtain ⟨t, ht, -⟩ := h.walk hvalid
      have hread : db.readSchema labelId = some (db.latestSchemaTid labelId, t.names) := by
        unfold AnnotDb.readSchema
        simp [hvalid, ht]
      rw [readLinePointer_of_get ht, ← h.read _ _ hread]
      rfl
    · exact congrArg Except.ok hann

/-- **The next change returns** where every caller so far is committed or the session's own. -/
theorem EntityBits.returns {c : BitChange} (h : EntityBits kind labelId id base names db es)
    (hs : db.graph.xacts.Open base s.fxid) (hmem : some annot ∈ names)
    (hes : ∀ e ∈ es, e.fxid = s.fxid ∨ db.graph.xacts.status e.fxid = .committed) :
    ∃ db', (changeAnnot kind c s labelId id annot).Runs db () db' := by
  obtain ⟨tbl, rec, htbl, hrec, hbits⟩ := h.bitset
  obtain ⟨row, hrow, -⟩ := h.ok.row
  obtain ⟨pos, hpos⟩ := exists_bitPosition hmem
  have hmap := h.ok.mapArray_ok h.block (List.ne_nil_of_mem hmem) hrow
  refine changeAnnot_runs hrow hmap hpos htbl hrec (fun hvalid => ?_) (fits_bitset h.fits)
  rcases hbits with ⟨hinvalid, -⟩ | ⟨t, -, ht, hholds⟩
  · cases hinvalid.symm.trans hvalid
  · refine ⟨t, ht, ?_, xmaxOther_of_unstamped hholds.unstamped⟩
    rw [live_of_unstamped h.room (fun o ho => by rw [List.mem_singleton.mp ho]; exact hs.1)
      hholds.begun hholds.unstamped, XactState.seen, Bool.or_eq_true, decide_eq_true_eq,
      decide_eq_true_eq]
    obtain ⟨e, he, hw⟩ := hholds.writer
    rw [← hw]
    exact (hes e he).imp_left fun hself => List.mem_singleton.mpr hself

/-- A change does not return over an aborted one. -/
theorem EntityBits.not_returns {c : BitChange} {t : AnnotTuple} {tid : ItemPointer}
    (h : EntityBits kind labelId id base names db es) (hs : db.graph.xacts.Open base s.fxid)
    (hb : db.bitset kind labelId id = some (tid, t)) (hne : t.hdr.xmin ≠ s.fxid)
    (ha : db.graph.xacts.status t.hdr.xmin ≠ .committed) :
    ¬ (changeAnnot kind c s labelId id annot).Runs db () db' := by
  intro hr
  obtain ⟨names', pos, tbl, tbl', oldTid, newTid, bits, hc⟩ := changeAnnot_inv hr
  obtain ⟨rec, tbl₁, hrec, htbl, hvalid, htid, ht⟩ := bitset_eq_some.mp hb
  obtain ⟨rec', hrec', hold⟩ := hc.record
  obtain rfl := Option.some.inj (htbl.symm.trans hc.table)
  obtain rfl := Option.some.inj (hrec.symm.trans hrec')
  rw [htid, keptAnnotTid_of_get ht] at hold
  rw [htid] at hvalid
  subst hold
  obtain ⟨tbl₂, rec₂, htbl₂, hrec₂, hbits⟩ := h.bitset
  obtain rfl := Option.some.inj (htbl.symm.trans htbl₂)
  obtain rfl := Option.some.inj (hrec.symm.trans hrec₂)
  rw [htid, keptAnnotTid_of_get ht] at hbits
  rcases hbits with ⟨hinvalid, -⟩ | ⟨t', -, ht', hholds⟩
  · cases hinvalid.symm.trans hvalid
  · obtain rfl := Option.some.inj (ht.symm.trans ht')
    cases hc.start with
    | first hv => cases hvalid.symm.trans hv
    | lost _ _ hget => cases ht.symm.trans hget
    | old _ hget hlive _ =>
      obtain rfl := Option.some.inj (ht.symm.trans hget)
      rw [live_of_unstamped h.room (fun o ho => by rw [List.mem_singleton.mp ho]; exact hs.1)
        hholds.begun hholds.unstamped, XactState.seen, Bool.or_eq_true, decide_eq_true_eq,
        decide_eq_true_eq] at hlive
      exact hlive.elim (fun hself => hne (List.mem_singleton.mp hself)) ha

/-! ## When the annotations roll back -/

/-- Nobody who changed the entity has aborted, and while one of them is open the committed calls leave
nothing to decode. -/
def OnlyCommitted (x : XactState) (es : List AnnotEvent) : Prop :=
  (∀ e ∈ es, x.status e.fxid ≠ .aborted) ∧
    ((∃ e ∈ es, x.status e.fxid = .inProgress) → ∀ a, holdsAfter (seenEvents x [] es) a = false)

section

variable {t : AnnotTuple}

/-- A session that sees the last writer sees all. -/
theorem seenEvents_all (h : HoldsEvents x base names t es) (hseen : x.seen own t.hdr.xmin = true) :
    seenEvents x own es = es :=
  List.filter_eq_self.mpr fun e he => by
    rcases h.others e he with hw | hc
    · rw [hw]
      exact hseen
    · unfold XactState.seen
      rw [hc.2]
      simp

/-- A session that does not sees the committed calls. -/
theorem seenEvents_committed (h : HoldsEvents x base names t es)
    (hseen : x.seen own t.hdr.xmin = false) : seenEvents x own es = seenEvents x [] es := by
  refine List.filter_congr fun e he => ?_
  rcases h.others e he with hw | hc
  · rw [hw, hseen]
    unfold XactState.seen at hseen ⊢
    simp only [Bool.or_eq_false_iff, decide_eq_false_iff_not] at hseen
    simp [hseen.2]
  · unfold XactState.seen
    rw [hc.2]
    simp

end

/-- What is decoded when the record names a bitset. -/
theorem EntityBits.decodes_of_bitset {tid : ItemPointer} {t : AnnotTuple}
    (h : EntityBits kind labelId id base names db es)
    (hb : db.bitset kind labelId id = some (tid, t)) (hown : ∀ o ∈ own, db.graph.xacts.Open base o) :
    db.Decodes g kind db.graph.xacts own labelId id a ↔
      db.graph.xacts.seen own t.hdr.xmin = true ∧ holdsAfter es a = true := by
  rw [h.decodes_iff hown, hb]
  refine and_congr_left fun _ => ⟨?_, fun hseen => ⟨_, _, rfl, hseen⟩⟩
  rintro ⟨_, _, he, hseen⟩
  cases he
  exact hseen

/-- Either the record names no bitset and nobody has called, or it names the one with the calls. -/
theorem EntityBits.cases (h : EntityBits kind labelId id base names db es) :
    (db.bitset kind labelId id = none ∧ es = []) ∨
      ∃ tid t, db.bitset kind labelId id = some (tid, t) ∧
        HoldsEvents db.graph.xacts base names t es := by
  obtain ⟨tbl, rec, htbl, hrec, hbits⟩ := h.bitset
  rcases hbits with ⟨hinvalid, hes⟩ | ⟨t, hvalid, ht, hholds⟩
  · exact .inl ⟨bitset_of_dropped htbl hrec hinvalid, hes⟩
  · have hkept := keptAnnotTid_eq hvalid
    rw [hkept] at hvalid ht
    exact .inr ⟨_, t, bitset_eq_some.mpr ⟨rec, tbl, hrec, htbl, hvalid, rfl, ht⟩, hholds⟩

/-- The transaction begun next is none of the callers. -/
theorem fxid_lt_next {t : AnnotTuple} (h : HoldsEvents x base names t es) {e : AnnotEvent}
    (he : e ∈ es) : e.fxid < x.nextFxid := by
  rcases h.others e he with hw | hc
  · rw [hw]
    exact h.begun.2.1
  · exact hc.1.2.1

/-- No caller's status changes when a transaction begins. -/
theorem EntityBits.status_begin (h : EntityBits kind labelId id base names db es) {e : AnnotEvent}
    (he : e ∈ es) : db.graph.xacts.begin.status e.fxid = db.graph.xacts.status e.fxid := by
  rcases h.cases with ⟨-, rfl⟩ | ⟨tid, t, -, hholds⟩
  · cases he
  · exact Function.update_of_ne (Nat.ne_of_lt (fxid_lt_next hholds he)) ..

/-- What every session decodes, where only committed calls have touched the entity. -/
theorem EntityBits.decoded (h : EntityBits kind labelId id base names db es)
    (honly : OnlyCommitted db.graph.xacts es) (hown : ∀ o ∈ own, db.graph.xacts.Open base o) :
    db.Decodes g kind db.graph.xacts own labelId id a ↔
      holdsAfter (seenEvents db.graph.xacts own es) a = true := by
  rcases h.cases with ⟨hb, rfl⟩ | ⟨tid, t, hb, hholds⟩
  · rw [h.decodes_iff hown, hb]
    simp [holdsAfter, seenEvents]
  · rw [h.decodes_of_bitset hb hown]
    cases hseen : db.graph.xacts.seen own t.hdr.xmin with
    | true =>
      rw [seenEvents_all hholds hseen]
      simp
    | false =>
      obtain ⟨e, he, hw⟩ := hholds.writer
      have hnot : db.graph.xacts.status t.hdr.xmin ≠ .committed := fun hc => by
        unfold XactState.seen at hseen
        rw [hc] at hseen
        simp at hseen
      have hopen : db.graph.xacts.status e.fxid = .inProgress := by
        rw [← hw] at hnot
        cases hst : db.graph.xacts.status e.fxid with
        | inProgress => rfl
        | committed => exact absurd hst hnot
        | aborted => exact absurd hst (honly.1 e he)
      rw [seenEvents_committed hholds hseen, honly.2 ⟨e, he, hopen⟩ a]
      simp

/-- **Annotations roll back exactly where only committed calls have touched them**, in every state of
every history of one entity. -/
theorem rollsBack_iff (h : BitsetRun kind labelId id base names db es) :
    RollsBack kind labelId id base names db es ↔ OnlyCommitted db.graph.xacts es := by
  have hinv := h.inv
  have hnext : EntityBits kind labelId id base names (db.setXacts db.graph.xacts.begin) es := by
    refine hinv.setXacts (XactState.later_begin base _) ?_ (fullTransactionIdAdvance_normal _)
    have hle := fullTransactionIdAdvance_le db.graph.xacts.nextFxid
    have hroom := h.room.1
    show fullTransactionIdAdvance db.graph.xacts.nextFxid ≤ _
    omega
  constructor
  · intro hroll
    refine ⟨fun e he haborted => ?_, fun ⟨e, he, hopen⟩ a => ?_⟩
    · -- the next transaction finds the bitset of an aborted one
      rcases hinv.cases with ⟨-, rfl⟩ | ⟨tid, t, hb, hholds⟩
      · cases he
      have hw : e.fxid = t.hdr.xmin := (hholds.others e he).resolve_right fun hc => by
        cases haborted.symm.trans hc.2
      obtain ⟨a, ha⟩ := hinv.named
      have hs : (db.setXacts db.graph.xacts.begin).graph.xacts.Open base db.graph.xacts.nextFxid :=
        XactState.open_begin hinv.base_le hinv.normal
      have hended : ∀ e' ∈ es, e'.fxid ≠ db.graph.xacts.nextFxid →
          (db.setXacts db.graph.xacts.begin).graph.xacts.status e'.fxid ≠ .inProgress := by
        intro e' he' _
        rw [show (db.setXacts db.graph.xacts.begin).graph.xacts.status e'.fxid =
          db.graph.xacts.status e'.fxid from hinv.status_begin he']
        rcases hholds.others e' he' with hw' | hc
        · rw [hw', ← hw, haborted]
          decide
        · rw [hc.2]
          decide
      obtain ⟨db', hr⟩ := hroll.returns _ (.inr rfl) ⟨db.graph.xacts.nextFxid, 0⟩ .set a hs hended ha
      refine hnext.not_returns hs hb ?_ ?_ hr
      · rw [← hw]
        exact Nat.ne_of_lt (fxid_lt_next hholds he)
      · rw [← hw, show (db.setXacts db.graph.xacts.begin).graph.xacts.status e.fxid =
          db.graph.xacts.status e.fxid from hinv.status_begin he, haborted]
        decide
    · -- a session without a transaction finds the bitset of an open one
      rcases hinv.cases with ⟨-, rfl⟩ | ⟨tid, t, hb, hholds⟩
      · cases he
      have hw : e.fxid = t.hdr.xmin := (hholds.others e he).resolve_right fun hc => by
        cases hopen.symm.trans hc.2
      have hiff := hroll.decoded (fun _ _ _ => 0) none (fun _ ht => by cases ht) a
      have hunseen : db.graph.xacts.seen [] t.hdr.xmin = false := by
        unfold XactState.seen
        rw [← hw, hopen]
        rfl
      rw [Option.toList_none, hinv.decodes_of_bitset hb (fun _ ho => by cases ho), hunseen] at hiff
      exact Bool.eq_false_iff.mpr fun hholdsa => Bool.false_ne_true (hiff.mpr hholdsa).1
  · intro honly
    refine ⟨fun g reader hreader a => hinv.decoded honly fun o ho => ?_,
      fun db₁ hdb₁ s c annot hs hother hmem => ?_⟩
    · exact hreader o (by simpa using ho)
    · have hst : ∀ e ∈ es, db₁.graph.xacts.status e.fxid = db.graph.xacts.status e.fxid := by
        intro e he
        rcases hdb₁ with rfl | rfl
        · rfl
        · exact hinv.status_begin he
      have hinv₁ : EntityBits kind labelId id base names db₁ es := by
        rcases hdb₁ with rfl | rfl
        · exact hinv
        · exact hnext
      refine hinv₁.returns hs hmem fun e he => ?_
      by_cases hself : e.fxid = s.fxid
      · exact .inl hself
      · have hopen := hother e he hself
        have haborted := honly.1 e he
        rw [← hst e he] at haborted
        cases hstatus : db₁.graph.xacts.status e.fxid with
        | inProgress => exact absurd hstatus hopen
        | committed => exact .inr rfl
        | aborted => exact absurd hstatus haborted

/-! ## A vertex with one annotation, and another that is rolled back -/

theorem exampleVertex_schemaOk : SchemaOk exampleVertex .vertex 2 [some "a", some "b"] := by
  obtain ⟨names₀, hfresh⟩ := exampleLabel_fresh.inv
  obtain ⟨⟨names, hinv⟩, -⟩ :=
    hfresh.call (c := exampleAnnotated) (by decide) trivial exampleAnnotated_runs
  obtain rfl : names = [some "a", some "b"] := hinv.ok.labelNames.symm.trans (by decide)
  exact hinv.ok

theorem exampleVertex_bits :
    EntityBits .vertex 2 1 5 [some "a", some "b"] exampleVertex [.insert 5 ["b"]] where
  ok := exampleVertex_schemaOk
  block := .inr (by decide)
  fits := by
    unfold Fits
    decide
  named := ⟨"a", by decide⟩
  base_le := by decide
  room := by decide
  normal := by decide
  valid := fun a ha => by
    simp [holdsAfter, AnnotEvent.effect] at ha
    simp [ha]
  bitset := ⟨_, _, rfl, rfl, .inr ⟨newAnnotTuple ⟨5, 1⟩ 1 .invalid [2], by decide, rfl, {
    begun := ⟨by decide, by decide, by decide⟩
    unstamped := rfl
    writer := ⟨_, List.mem_singleton_self _, rfl⟩
    others := fun e he => .inl (by rw [List.mem_singleton.mp he]; rfl)
    length := by decide
    bits := fun i a hi => by
      have hlt : i < 2 := (List.getElem?_eq_some_iff.mp hi).1
      obtain rfl | rfl : i = 0 ∨ i = 1 := by omega
      · obtain rfl : a = "a" := by simpa using hi.symm
        decide
      · obtain rfl : a = "b" := by simpa using hi.symm
        decide }⟩⟩

theorem exampleVertex_run :
    BitsetRun .vertex 2 1 5 [some "a", some "b"] exampleVertex [.insert 5 ["b"]] :=
  .inserted exampleVertex_bits (.inr ⟨5, ["b"], rfl⟩) (by decide)

/-- Transaction 6 adds the other annotation. -/
def exampleChanged : AnnotDb :=
  ((addVertexAnnotationLabel ⟨6, 0⟩ 2 1 "a").exec
    (exampleVertex.setXacts exampleVertex.graph.xacts.begin)).2

theorem exampleChanged_run : BitsetRun .vertex 2 1 5 [some "a", some "b"] exampleChanged
    [.insert 5 ["b"], .change 6 .set "a"] :=
  (exampleVertex_run.begin (by decide)).call ⟨6, 0⟩ ⟨⟨by decide, by decide, by decide⟩, by decide⟩ .set "a"
    (show (changeAnnot .vertex .set ⟨6, 0⟩ 2 1 "a").Runs _ () exampleChanged from Prog.runs_of_ok (by rfl))

theorem exampleChanged_open : exampleChanged.graph.xacts.Open 5 6 :=
  ⟨⟨by decide, by decide, by decide⟩, by decide⟩

/-- It commits, and the vertex has both. -/
theorem rollsBack_iff_example :
    RollsBack .vertex 2 1 5 [some "a", some "b"] (exampleChanged.setXacts (exampleChanged.graph.xacts.commit 6))
      [.insert 5 ["b"], .change 6 .set "a"] := by
  have hcommitted : ∀ e ∈ [AnnotEvent.insert 5 ["b"], .change 6 .set "a"],
      (exampleChanged.graph.xacts.commit 6).status e.fxid = .committed := by decide
  refine (rollsBack_iff (exampleChanged_run.commit exampleChanged_open)).mpr ⟨fun e he haborted => ?_, ?_⟩
  · cases (hcommitted e he).symm.trans haborted
  · rintro ⟨e, he, hopen⟩
    cases (hcommitted e he).symm.trans hopen

/-- It aborts, and nothing is decoded any more. -/
theorem rollsBack_fails : ¬ ∀ kind labelId id base names db es,
    BitsetRun kind labelId id base names db es → RollsBack kind labelId id base names db es := by
  intro h
  have haborted := exampleChanged_run.abort exampleChanged_open
  have hdecoded := (h _ _ _ _ _ _ _ haborted).decoded (fun _ _ _ => 0) none
    (fun _ ht => by cases ht) "b"
  have hb : (exampleChanged.setXacts (exampleChanged.graph.xacts.abort 6)).bitset .vertex 2 1 =
    some (⟨0, 2⟩, newAnnotTuple ⟨6, 0⟩ 1 ⟨0, 1⟩ [3]) := by rfl
  rw [haborted.inv.decodes_of_bitset hb (fun _ ho => by cases ho)] at hdecoded
  have hseen := (hdecoded.mpr (by decide)).1
  revert hseen
  decide

end NeoPostGraph
