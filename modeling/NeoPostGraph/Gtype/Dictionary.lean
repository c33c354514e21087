import NeoPostGraph.Error
import NeoPostGraph.Gtype.TextOut
import Mathlib.Data.List.Count

/-!
# Vertices with a dictionary

`utils/adt/vertex.c:108-444`. A dictionary is an array of keys. `vertex_set_dictionary` goes through the
properties of a vertex and the dictionary side by side and makes the array of the values by the keys of the
dictionary, with what is left over as an object behind them. What it returns is a vertex with the id of the
dictionary, and the array is dropped. `vertex_out` of such a vertex reads the properties as that array.

* `DictionaryDb`: what the two functions look up. A gtype is the value it encodes.
* `vertexSetDictionary`, `vertexOut`: the functions. `VertexShown.text` is the text.
* `PropsCursor`: `vertex_out`'s iterator over the properties, and the `gtype_value` it fills in.
* `DictionaryInvisible`: a vertex is shown with a dictionary as it is without.

Result:
* `dictionaryInvisible_iff`: that is so exactly where `vertex_out` does not come to use the dictionary, and
  where it and the properties are empty.
-/

namespace NeoPostGraph

/-- A `vertex`. -/
structure VertexDatum where
  id : Int
  graphId : Int
  labelId : Int
  dictionaryId : Int
deriving DecidableEq, Repr

/-- Properties by key. -/
abbrev Props := List (List UInt8 × GtypeValue)

/-- What goes wrong in `vertex_out`. -/
inductive VertexOutErr where
  /-- Raised while the label and the annotations are read. -/
  | label (message : String)
  | scalar (e : GtypeOutErr)
  /-- Not raised: `dictionary_cache->dict` of a null pointer. -/
  | noDictionary
  /-- Not raised: `val.binary.data` is followed in a value that is no container. -/
  | strayPointer
  /-- The loop over the values behind the dictionary ends at `WGT_END_OBJECT`, which an array has not. -/
  | endlessArray
deriving DecidableEq, Repr

/-- A state of the database, and the settings. -/
structure DictionaryDb where
  /-- What `vertex_out` prints for the label with its annotations, by graph, label and vertex. -/
  labelText : Int → Int → Int → Except VertexOutErr (List UInt8)
  /-- `np_fetch_vertex_properties`, by graph, label and vertex. -/
  properties : Int → Int → Int → Props
  /-- `search_vertex_dictionary_cache`, by graph, label and dictionary. -/
  dictionary : Int → Int → Int → Option (List (List UInt8))
  showDictionaryKeys : Bool
  showDictionaryNulls : Bool

/-! ## `vertex_set_dictionary` -/

/-- `pg_strcasecmp`, in the C locale. -/
def pgStrcasecmp : List UInt8 → List UInt8 → Int
  | [], [] => 0
  | [], b :: _ => 0 - (lowerByte b).toNat
  | a :: _, [] => (lowerByte a).toNat
  | a :: as, b :: bs =>
    if lowerByte a = lowerByte b then pgStrcasecmp as bs else (lowerByte a).toNat - (lowerByte b).toNat

/-- The first loop: the elements pushed, and `extra_props`. It ends with the properties, whatever is left of
the dictionary. -/
def encodeByKeys : List (List UInt8) → Props → List GtypeValue × Bool
  | [], props => ([], !props.isEmpty)
  | _ :: _, [] => ([], false)
  | key :: keys, (name, v) :: props =>
    let cmp := pgStrcasecmp key name
    if cmp = 0 then
      let (elems, extraProps) := encodeByKeys keys props
      (v :: elems, extraProps)
    else if 0 < cmp then
      -- `goto next_key`: the same key of the dictionary, and the next property
      let (elems, _) := encodeByKeys (key :: keys) props
      (elems, true)
    else
      let (elems, extraProps) := encodeByKeys keys ((name, v) :: props)
      (.scalar .null :: elems, extraProps)
  termination_by keys props => keys.length + props.length

/-- The second loop: the properties that are pushed as an object. -/
def extraProps : List (List UInt8) → Props → Props
  | [], props => props
  | _ :: _, [] => []
  | key :: keys, (name, v) :: props =>
    let cmp := pgStrcasecmp key name
    if cmp = 0 then extraProps keys props
    else if 0 < cmp then (name, v) :: extraProps (key :: keys) props
    else extraProps keys ((name, v) :: props)
  termination_by keys props => keys.length + props.length

/-- The array that the two loops make: the values by key, and an object or a null. -/
def dictionaryArray (keys : List (List UInt8)) (props : Props) : GtypeValue :=
  let (elems, extra) := encodeByKeys keys props
  .array false (elems ++ [if extra then .object (extraProps keys props) else .scalar .null])

/-- "Cannot Set Vertex to have a dictionary if it already has a dictionary". -/
inductive SetDictionaryErr where
  | alreadyHasDictionary
deriving DecidableEq, Repr

/-- The `int16` that is kept of an `int`. -/
def toInt16 (n : Int) : Int := n.bmod (2 ^ 16)

/-- `vertex_set_dictionary` (`vertex.c:343-444`). -/
def vertexSetDictionary (db : DictionaryDb) (v : VertexDatum) (dictionaryId : Int) :
    Except SetDictionaryErr VertexDatum :=
  match db.dictionary v.graphId v.labelId dictionaryId with
  | none => .ok v
  | some keys =>
    if v.dictionaryId ≠ 0 then .error .alreadyHasDictionary
    else
      -- `build_vertex_internal` has no place for it
      let _result := dictionaryArray keys (db.properties v.graphId v.labelId v.id)
      .ok { v with dictionaryId := toInt16 dictionaryId }

/-! ## `vertex_out` -/

/-- The iterator over the properties with `skip_nested`, behind `WGT_BEGIN_OBJECT`: what it will fill in, and
what it has. At the end it leaves the `gtype_value` as it is. -/
structure PropsCursor where
  tokens : List GtypeValue
  ended : Bool
  /-- `none` is the `GTV_OBJECT` of `WGT_BEGIN_OBJECT`. -/
  gtv : Option GtypeValue

/-- What a call returns, as far as `vertex_out` asks. -/
inductive PropsToken where
  | keyOrValue
  | endObject
  | done
deriving DecidableEq, Repr

/-- `gtype_iterator_next`. -/
def PropsCursor.next (c : PropsCursor) : PropsToken × PropsCursor :=
  match c.tokens with
  | t :: ts => (.keyOrValue, { c with tokens := ts, gtv := some t })
  | [] => if c.ended then (.done, c) else (.endObject, { c with ended := true })

/-- The keys and values of an object, one after the other. -/
def propTokens (props : Props) : List GtypeValue := props.flatMap fun p => [.scalar (.string p.1), p.2]

def GtypeValue.isNull : GtypeValue → Bool
  | scalar .null => true
  | _ => false

/-- The loop over the keys of the dictionary: a key, and what comes next of the properties. -/
def showByKeys (showNulls : Bool) : List (List UInt8) → PropsCursor →
    Except VertexOutErr (Props × PropsCursor)
  | [], c => .ok ([], c)
  | key :: keys, c =>
    let c := c.next.2
    match c.gtv with
    | none => .error (.scalar .unknownScalarType)
    | some v =>
      if v.isNull && !showNulls then showByKeys showNulls keys c
      else (showByKeys showNulls keys c).map fun (shown, c) => ((key, v) :: shown, c)

/-- The pairs of the value that comes next. -/
def showExtra (c : PropsCursor) : Except VertexOutErr Props :=
  let (token, c) := c.next
  if token = .endObject then .ok []
  else match c.gtv with
  | some (.scalar .null) => .ok []
  | some (.object pairs) => .ok pairs
  | some (.array ..) => .error .endlessArray
  | _ => .error .strayPointer

/-- What `vertex_out` shows. -/
structure VertexShown where
  id : Int
  label : List UInt8
  props : Props
  byKeys : Bool

/-- `vertex_out` (`vertex.c:108-341`). -/
def vertexOut (db : DictionaryDb) (v : VertexDatum) : Except VertexOutErr VertexShown := do
  let label ← db.labelText v.graphId v.labelId v.id
  let props := db.properties v.graphId v.labelId v.id
  if v.dictionaryId ≠ 0 ∧ db.showDictionaryKeys then
    match db.dictionary v.graphId v.labelId v.dictionaryId with
    | none => .error .noDictionary
    | some keys =>
      let (shown, c) ← showByKeys db.showDictionaryNulls keys ⟨propTokens props, false, none⟩
      let extra ← showExtra c
      return ⟨v.id, label, shown ++ extra, true⟩
  else return ⟨v.id, label, props, false⟩

/-- The pairs of a vertex with a dictionary: the keys as they are. -/
def propsText (o : ScalarOut) (first : Bool) : Props → List UInt8
  | [] => []
  | (key, v) :: props => comma first ++ key ++ [58, 32] ++ v.text o ++ propsText o false props

/-- The text that `vertex_out` returns. -/
def VertexShown.text (o : ScalarOut) (shown : VertexShown) : List UInt8 :=
  ascii "\x7b\"id\": " ++ int8out (UInt64.ofInt shown.id) ++ ascii ", \"label\": \"" ++ shown.label ++
    ascii "\", \"properties\": " ++
    (if shown.byKeys then [123] ++ propsText o true shown.props ++ [125]
      else (GtypeValue.object shown.props).text o) ++ [125]

/-! ## What is shown -/

/-- The same vertex: the same id and label, and the same pairs in any order, together with nulls for keys of
the dictionary that the object lacks if these are to be shown. -/
structure ShowsSame (showNulls : Bool) (keys : List (List UInt8)) (shown shown' : VertexShown) : Prop where
  id : shown'.id = shown.id
  label : shown'.label = shown.label
  props : ∃ lacking : List (List UInt8),
    (∀ key ∈ lacking, showNulls = true ∧ key ∈ keys ∧ key ∉ shown.props.map Prod.fst) ∧
    shown'.props.Perm (shown.props ++ lacking.map fun key => (key, .scalar .null))

/-- **The vertex is shown with the dictionary as it is without.** -/
def DictionaryInvisible (db : DictionaryDb) (v : VertexDatum) (dictionaryId : Int) : Prop :=
  ∀ v', vertexSetDictionary db v dictionaryId = .ok v' → ∀ shown, vertexOut db v = .ok shown →
    ∃ shown', vertexOut db v' = .ok shown' ∧ ShowsSame db.showDictionaryNulls
      ((db.dictionary v.graphId v.labelId dictionaryId).getD []) shown shown'

/-- The dictionary is not set, or not used, or it is empty and there are no properties. -/
def DictionaryUnused (db : DictionaryDb) (v : VertexDatum) (dictionaryId : Int) : Prop :=
  db.dictionary v.graphId v.labelId dictionaryId = none ∨
  v.dictionaryId ≠ 0 ∨
  (∃ e, db.labelText v.graphId v.labelId v.id = .error e) ∨
  toInt16 dictionaryId = 0 ∨
  db.showDictionaryKeys = false ∨
  db.properties v.graphId v.labelId v.id = [] ∧
    db.dictionary v.graphId v.labelId (toInt16 dictionaryId) = some []

section

variable {db : DictionaryDb} {v : VertexDatum} {dictionaryId : Int} {showNulls : Bool}
  {keys : List (List UInt8)} {c c' : PropsCursor} {shown props : Props} {p : GtypeValue → Bool}

theorem countP_propTokens (p : GtypeValue → Bool) (props : Props) : (propTokens props).countP p =
    (props.map fun q => GtypeValue.scalar (.string q.1)).countP p + (props.map Prod.snd).countP p := by
  induction props with
  | nil => rfl
  | cons q props ih =>
    unfold propTokens at ih ⊢
    simp only [List.flatMap_cons, List.countP_append, ih, List.map_cons, List.countP_cons, List.countP_nil]
    omega

/-- A step of the loop over the keys: what came next is shown, or is a null that is not. -/
theorem showByKeys_cons {key : List UInt8}
    (h : showByKeys showNulls (key :: keys) c = .ok (shown, c')) :
    ∃ v rest, c.next.2.gtv = some v ∧ showByKeys showNulls keys c.next.2 = .ok (rest, c') ∧
      (shown = (key, v) :: rest ∨ v = .scalar .null ∧ shown = rest) := by
  unfold showByKeys at h
  dsimp only at h
  cases hv : c.next.2.gtv with
  | none =>
    rw [hv] at h
    cases h
  | some v =>
    rw [hv] at h
    dsimp only at h
    split_ifs at h with hnull
    · refine ⟨v, shown, rfl, h, Or.inr ⟨?_, rfl⟩⟩
      have hv : v.isNull = true := (Bool.and_eq_true_iff.mp hnull).1
      unfold GtypeValue.isNull at hv
      split at hv
      · rfl
      · cases hv
    · cases hrest : showByKeys showNulls keys c.next.2 with
      | error e =>
        rw [hrest] at h
        cases h
      | ok r =>
        rw [hrest] at h
        cases h
        exact ⟨v, r.1, rfl, rfl, Or.inl rfl⟩

theorem next_of_tokens {t : GtypeValue} {ts : List GtypeValue} (h : c.tokens = t :: ts) :
    c.next = (.keyOrValue, { c with tokens := ts, gtv := some t }) := by
  unfold PropsCursor.next
  rw [h]

/-- With enough keys every token is shown that is not null, and some perhaps more than once. -/
theorem showByKeys_all (hp : p (.scalar .null) = false) (hlen : c.tokens.length ≤ keys.length)
    (h : showByKeys showNulls keys c = .ok (shown, c')) :
    c.tokens.countP p ≤ (shown.map Prod.snd).countP p := by
  induction keys generalizing c shown with
  | nil =>
    rw [List.eq_nil_of_length_eq_zero (Nat.le_zero.mp hlen)]
    exact Nat.zero_le _
  | cons key keys ih =>
    obtain ⟨v, rest, hv, hrest, hshown⟩ := showByKeys_cons h
    cases ht : c.tokens with
    | nil => exact Nat.zero_le _
    | cons t ts =>
      have hnext := next_of_tokens ht
      rw [hnext] at hv hrest
      obtain rfl := Option.some.inj hv
      have hle := ih (by rw [ht] at hlen; exact Nat.le_of_succ_le_succ hlen) hrest
      rcases hshown with rfl | ⟨rfl, rfl⟩
      · rw [List.map_cons, List.countP_cons, List.countP_cons]
        exact Nat.add_le_add_right hle _
      · rw [List.countP_cons_of_neg (by rw [hp]; decide)]
        exact hle

/-- With fewer keys than tokens nothing else is shown, and the other tokens are left. -/
theorem showByKeys_some (p : GtypeValue → Bool) (hlen : keys.length < c.tokens.length)
    (h : showByKeys showNulls keys c = .ok (shown, c')) :
    (shown.map Prod.snd).countP p ≤ (c.tokens.take keys.length).countP p ∧
      c'.tokens = c.tokens.drop keys.length := by
  induction keys generalizing c shown with
  | nil =>
    cases h
    exact ⟨Nat.zero_le _, rfl⟩
  | cons key keys ih =>
    obtain ⟨v, rest, hv, hrest, hshown⟩ := showByKeys_cons h
    cases ht : c.tokens with
    | nil =>
      rw [ht] at hlen
      exact absurd hlen (Nat.not_lt_zero _)
    | cons t ts =>
      have hnext := next_of_tokens ht
      rw [hnext] at hv hrest
      obtain rfl := Option.some.inj hv
      obtain ⟨hle, hdrop⟩ := ih (by rw [ht] at hlen; exact Nat.lt_of_succ_lt_succ hlen) hrest
      refine ⟨?_, hdrop⟩
      rw [List.length_cons, List.take_succ_cons, List.countP_cons]
      rcases hshown with rfl | ⟨rfl, rfl⟩
      · rw [List.map_cons, List.countP_cons]
        exact Nat.add_le_add_right hle _
      · exact Nat.le_trans hle (Nat.le_add_right _ _)

/-- What is shown behind the keys, if a token is left: nothing for a null, and the pairs of an object. -/
theorem showExtra_of_tokens {t : GtypeValue} {ts : List GtypeValue} {extra : Props}
    (ht : c.tokens = t :: ts) (h : showExtra c = .ok extra) :
    t = .scalar .null ∧ extra = [] ∨ t = .object extra := by
  unfold showExtra at h
  rw [next_of_tokens ht] at h
  dsimp only at h
  rw [if_neg (by decide)] at h
  split at h
  · next hgtv =>
    cases h
    exact Or.inl ⟨Option.some.inj hgtv, rfl⟩
  · next pairs hgtv =>
    cases h
    exact Or.inr (Option.some.inj hgtv)
  · cases h
  · cases h

/-- An object is not one of its own values. -/
theorem object_not_mem_values (pairs : Props) : GtypeValue.object pairs ∉ pairs.map Prod.snd := by
  intro hmem
  obtain ⟨q, hq, hobj⟩ := List.mem_map.mp hmem
  have hlt := List.sizeOf_lt_of_mem hq
  have hval : sizeOf q.2 = sizeOf (GtypeValue.object pairs) := by rw [hobj]
  have hobj : sizeOf (GtypeValue.object pairs) = 1 + sizeOf pairs := by simp
  have hpair : sizeOf q = 1 + sizeOf q.1 + sizeOf q.2 := by
    cases q
    simp
  omega

/-- **Under a dictionary other values are shown**, if there are properties: with a key for each token there
is also the name of a property among them; with fewer keys the value that is behind the last is not. -/
theorem showByKeys_ne {extra : Props} {lacking : List (List UInt8)} (hprops : props ≠ [])
    (h : showByKeys showNulls keys ⟨propTokens props, false, none⟩ = .ok (shown, c'))
    (hextra : showExtra c' = .ok extra) :
    ¬ (shown ++ extra).Perm (props ++ lacking.map fun key => (key, .scalar .null)) := by
  intro hperm
  have hcount (p : GtypeValue → Bool) : (shown.map Prod.snd).countP p + (extra.map Prod.snd).countP p =
      (props.map Prod.snd).countP p + (lacking.map fun _ => GtypeValue.scalar .null).countP p := by
    have hsnd := (hperm.map Prod.snd).countP_eq p
    simpa only [List.map_append, List.countP_append, List.map_map, Function.comp_def] using hsnd
  rcases Nat.lt_or_ge keys.length (propTokens props).length with hfew | hmany
  · -- the value behind the last key is one of the properties
    cases hrest : (propTokens props).drop keys.length with
    | nil => exact absurd (List.drop_eq_nil_iff.mp hrest) (Nat.not_le.mpr hfew)
    | cons t ts =>
      classical
      obtain ⟨hle, hdrop⟩ := showByKeys_some (fun w => decide (w = t)) hfew h
      have ht := showExtra_of_tokens (hdrop.trans hrest) hextra
      have hsplit := congrArg (List.countP fun w => decide (w = t))
        (List.take_append_drop keys.length (propTokens props))
      rw [hrest, List.countP_append, List.countP_cons_of_pos (by simp)] at hsplit
      dsimp only at hle
      have hnames : (props.map fun q => GtypeValue.scalar (.string q.1)).countP
          (fun w => decide (w = t)) = 0 := by
        rw [List.countP_eq_zero]
        intro w hw hwt
        obtain ⟨q, -, rfl⟩ := List.mem_map.mp hw
        rcases ht with ⟨rfl, -⟩ | rfl <;> simp at hwt
      have hinner : (extra.map Prod.snd).countP (fun w => decide (w = t)) = 0 := by
        rcases ht with ⟨-, rfl⟩ | rfl
        · rfl
        · rw [List.countP_eq_zero]
          intro w hw hwt
          exact object_not_mem_values extra (of_decide_eq_true hwt ▸ hw)
      have htokens := countP_propTokens (fun w => decide (w = t)) props
      have := hcount fun w => decide (w = t)
      omega
  · -- the name of the first property is shown, as a value
    obtain ⟨⟨name, value⟩, props', rfl⟩ := List.exists_cons_of_ne_nil hprops
    let p : GtypeValue → Bool := fun w => match w with
      | .scalar (.string s) => s == name
      | _ => false
    have hle := showByKeys_all (p := p) rfl hmany h
    dsimp only at hle
    have htokens := countP_propTokens p ((name, value) :: props')
    have hname : 1 ≤ (((name, value) :: props').map fun q => GtypeValue.scalar (.string q.1)).countP p := by
      rw [List.map_cons, List.countP_cons_of_pos (by simp [p])]
      exact Nat.le_add_left _ _
    have hnulls : (lacking.map fun _ => GtypeValue.scalar .null).countP p = 0 := by
      rw [List.countP_eq_zero]
      intro w hw
      obtain ⟨_, -, rfl⟩ := List.mem_map.mp hw
      simp [p]
    have := hcount p
    omega

/-- Without properties a key of the dictionary is shown with `GTV_OBJECT`, which is no scalar. -/
theorem showByKeys_empty {key : List UInt8} :
    showByKeys showNulls (key :: keys) ⟨[], false, none⟩ = .error (.scalar .unknownScalarType) := rfl

theorem vertexOut_plain (h : v.dictionaryId = 0 ∨ db.showDictionaryKeys = false) : vertexOut db v =
    (db.labelText v.graphId v.labelId v.id).map fun label =>
      ⟨v.id, label, db.properties v.graphId v.labelId v.id, false⟩ := by
  have hno : ¬ (v.dictionaryId ≠ 0 ∧ db.showDictionaryKeys = true) := by
    rintro ⟨h0, hshow⟩
    rcases h with h | h
    · exact h0 h
    · rw [h] at hshow
      cases hshow
  unfold vertexOut
  cases db.labelText v.graphId v.labelId v.id with
  | error e => rfl
  | ok label =>
    show (if _ then _ else _) = _
    rw [if_neg hno]
    rfl

/-- What is shown under a dictionary: what goes with its keys, and what is behind. -/
theorem vertexOut_byKeys {out : VertexShown} (h0 : v.dictionaryId ≠ 0)
    (hshow : db.showDictionaryKeys = true) (h : vertexOut db v = .ok out) :
    ∃ keys shown c extra, db.dictionary v.graphId v.labelId v.dictionaryId = some keys ∧
      showByKeys db.showDictionaryNulls keys
        ⟨propTokens (db.properties v.graphId v.labelId v.id), false, none⟩ = .ok (shown, c) ∧
      showExtra c = .ok extra ∧ out.props = shown ++ extra := by
  unfold vertexOut at h
  obtain ⟨label, -, h⟩ := bind_eq_ok h
  rw [if_pos ⟨h0, hshow⟩] at h
  split at h
  · cases h
  · next keys hkeys =>
    obtain ⟨⟨shown, c⟩, hloop, h⟩ := bind_eq_ok h
    obtain ⟨extra, hextra, h⟩ := bind_eq_ok h
    cases h
    exact ⟨keys, shown, c, extra, hkeys, hloop, hextra, rfl⟩

theorem ShowsSame.refl (shown : VertexShown) : ShowsSame showNulls keys shown shown where
  id := rfl
  label := rfl
  props := ⟨[], by simp, by simp⟩

/-- **A vertex with a dictionary is shown as it is without exactly where the dictionary is not used**, and
where there is nothing to show. Otherwise the names of the properties are shown as values of the keys, or
`vertex_out` fails. -/
theorem dictionaryInvisible_iff (db : DictionaryDb) (v : VertexDatum) (dictionaryId : Int) :
    DictionaryInvisible db v dictionaryId ↔ DictionaryUnused db v dictionaryId := by
  unfold DictionaryUnused
  constructor
  · intro h
    by_contra hused
    push Not at hused
    obtain ⟨hfound, hdict, hlabel, hid, hshow, hempty⟩ := hused
    obtain ⟨keys, hkeys⟩ := Option.ne_none_iff_exists'.mp hfound
    have hshow : db.showDictionaryKeys = true := by simpa using hshow
    have hset : vertexSetDictionary db v dictionaryId =
        .ok { v with dictionaryId := toInt16 dictionaryId } := by
      unfold vertexSetDictionary
      rw [hkeys]
      exact if_neg (by simpa using hdict)
    have hplain : vertexOut db v = (db.labelText v.graphId v.labelId v.id).map fun label =>
        ⟨v.id, label, db.properties v.graphId v.labelId v.id, false⟩ := vertexOut_plain (Or.inl hdict)
    cases hl : db.labelText v.graphId v.labelId v.id with
    | error e => exact hlabel e hl
    | ok label =>
      rw [hl] at hplain
      obtain ⟨shown', hout, hsame⟩ := h _ hset _ hplain
      obtain ⟨lacking, -, hperm⟩ := hsame.props
      obtain ⟨keys', shown, c, extra, hkeys', hloop, hextra, hprops⟩ := vertexOut_byKeys hid hshow hout
      rw [hprops] at hperm
      by_cases hnone : db.properties v.graphId v.labelId v.id = []
      · -- with a key there is an error, so there is none
        dsimp only at hloop hkeys'
        rw [hnone] at hloop
        cases keys' with
        | nil => exact hempty hnone hkeys'
        | cons key keys => exact absurd hloop (by rw [propTokens, List.flatMap_nil, showByKeys_empty]; simp)
      · exact showByKeys_ne hnone hloop hextra hperm
  · intro h v' hset shown hout
    unfold vertexSetDictionary at hset
    cases hkeys : db.dictionary v.graphId v.labelId dictionaryId with
    | none =>
      rw [hkeys] at hset
      cases hset
      exact ⟨shown, hout, ShowsSame.refl shown⟩
    | some keys =>
      rw [hkeys] at hset
      dsimp only at hset
      split_ifs at hset with hdict
      cases hset
      have hdict : v.dictionaryId = 0 := not_not.mp hdict
      rw [vertexOut_plain (Or.inl hdict)] at hout
      cases hl : db.labelText v.graphId v.labelId v.id with
      | error e =>
        rw [hl] at hout
        cases hout
      | ok label =>
        rw [hl] at hout
        cases hout
        rcases h with h | h | ⟨e, h⟩ | h | h | ⟨hnone, hempty⟩
        · rw [hkeys] at h
          cases h
        · exact absurd hdict h
        · rw [hl] at h
          cases h
        · refine ⟨_, (vertexOut_plain (Or.inl h)).trans ?_, ShowsSame.refl _⟩
          dsimp only
          rw [hl]
          rfl
        · refine ⟨_, (vertexOut_plain (Or.inr h)).trans ?_, ShowsSame.refl _⟩
          dsimp only
          rw [hl]
          rfl
        · by_cases hused : toInt16 dictionaryId ≠ 0 ∧ db.showDictionaryKeys = true
          · refine ⟨⟨v.id, label, [], true⟩, ?_, ⟨rfl, rfl, [], by simp, by simp [hnone]⟩⟩
            show vertexOut db { v with dictionaryId := toInt16 dictionaryId } = _
            unfold vertexOut
            dsimp only
            rw [hl, hnone, hempty]
            show (if _ then _ else _) = _
            rw [if_pos hused]
            rfl
          · have hplain : toInt16 dictionaryId = 0 ∨ db.showDictionaryKeys = false := by
              by_cases h0 : toInt16 dictionaryId = 0
              · exact Or.inl h0
              · exact Or.inr (by simpa using fun hshow => hused ⟨h0, hshow⟩)
            refine ⟨_, (vertexOut_plain hplain).trans ?_, ShowsSame.refl _⟩
            dsimp only
            rw [hl]
            rfl

/-- A vertex with `a` set to true, and the dictionary of `a` and `b`. -/
def exampleDictionary : DictionaryDb where
  labelText _ _ _ := .ok []
  properties _ _ _ := [(ascii "a", .scalar (.bool true))]
  dictionary _ _ dictionaryId := if dictionaryId = 1 then some [ascii "a", ascii "b"] else none
  showDictionaryKeys := true
  showDictionaryNulls := false

/-- With the dictionary it is shown with the string "a" at `a`, and true at `b`. -/
theorem dictionary_visible : ¬ DictionaryInvisible exampleDictionary ⟨1, 1, 1, 0⟩ 1 := by
  intro h
  obtain ⟨shown', hout, hsame⟩ := h ⟨1, 1, 1, 1⟩ rfl _ rfl
  obtain ⟨lacking, hlacking, hperm⟩ := hsame.props
  cases hout
  -- nulls are not shown, so there is one pair where two are shown
  have hnone : lacking = [] := List.eq_nil_iff_forall_not_mem.mpr fun key hkey =>
    Bool.false_ne_true (hlacking key hkey).1
  rw [hnone] at hperm
  exact absurd hperm.length_eq (by decide)

end

end NeoPostGraph
