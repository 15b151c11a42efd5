import IsarPlus.Transfer.JsonImport
import IsarPlus.Native.Proofs.Reading

/-!
# Visits of JSON documents

A visit succeeds exactly when the document plans fields that can be written, and what it has written
then is these fields.
-/

namespace IsarPlus
open Scalar

section
variable {messages : JsonMessages}

@[simp] theorem JsonMessages.nest_eq_ok {α : Type} {x : Result α} {a : α} :
    messages.nest x = .ok a ↔ x = .ok a := by
  unfold JsonMessages.nest
  split
  · simp
  · rfl

@[simp] theorem JsonMessages.wrap_eq_ok {α : Type} {x : Result α} {a : α} :
    messages.wrap x = .ok a ↔ x = .ok a := by
  unfold JsonMessages.wrap
  split
  · simp
  · rfl

theorem JsonMessages.read_eq_ok {α : Type} {as : Source → Option α} {expected : String}
    {source : Source} {a : α} : messages.read as expected source = .ok a ↔ as source = some a := by
  unfold JsonMessages.read
  cases as source <;> simp

end

end IsarPlus

namespace IsarPlus.Native
open Scalar
open Sqlite (Written)

section
variable {messages : JsonMessages} {W W' : NativeWriter} {i : UInt32}

theorem NativeWriter.wrote_eq_ok {s : Option IsarSerializer} :
    W.wrote s = .ok W' ↔ ∃ s', s = some s' ∧ W' = { W with object := s' } := by
  unfold NativeWriter.wrote
  rw [map_eq_ok]
  constructor
  · rintro ⟨s', eq, rfl⟩
    exact ⟨s', orPanic_eq_ok.mp eq, rfl⟩
  · rintro ⟨s', eq, rfl⟩
    exact ⟨s', orPanic_eq_ok.mpr eq, rfl⟩

theorem writeAll_cons_eq_ok {value : Written} {writes : List (UInt32 × Written)} :
    W.wrote (W.impl.writeAll W.all W.object ((i, value) :: writes)) = .ok W' ↔
      ∃ s', W.impl.write W.all W.object i value = some s' ∧
        NativeWriter.wrote { W with object := s' } (W.impl.writeAll W.all s' writes) = .ok W' := by
  rw [WriterImpl.writeAll]
  cases W.impl.write W.all W.object i value with
  | none => simp [NativeWriter.wrote, orPanic, Except.map]
  | some s =>
    simp only [Option.some.injEq, exists_eq_left']
    rfl

/-- Writing what is planned for an index, which may be nothing. -/
def NativeWriter.writes (W : NativeWriter) (i : UInt32) : Option Written → Option IsarSerializer
  | some value => W.impl.write W.all W.object i value
  | none => some W.object

theorem beginList_eq_map {w : WriterImpl} {s : IsarSerializer} {p : NativeProperty} {t : DataType}
    (found : w.getProperty i = some p) (elements : p.dataType.elementType = some t)
    (length : UInt32) : w.beginList s i length =
      (s.beginNested p.offset (UInt32.ofNat t.staticSize * length).toNat).map fun begun =>
        (begun.1, some (.list t p.embeddedCollectionIndex length, begun.2)) := by
  unfold WriterImpl.beginList
  simp only [found, elements, Option.bind_eq_bind]
  cases s.beginNested p.offset (UInt32.ofNat t.staticSize * length).toNat <;> rfl

/-- A list is begun, filled and ended as a tree of writes is. -/
theorem beginList_eq_ok {length : UInt32} {p : NativeProperty} {t : DataType}
    {plan : Option (List (UInt32 × Written))} {fill : NativeWriter → Result NativeWriter}
    (found : W.impl.getProperty i = some p) (elements : p.dataType.elementType = some t)
    (filled : ∀ nested L, fill ⟨W.all, none, .list t p.embeddedCollectionIndex length, nested⟩ =
      .ok L ↔ ∃ writes, plan = some writes ∧
        NativeWriter.wrote ⟨W.all, none, .list t p.embeddedCollectionIndex length, nested⟩
          ((WriterImpl.list t p.embeddedCollectionIndex length).writeAll W.all nested writes) =
            .ok L) :
    fillNested (IsarWriter.beginList W i length) fill IsarWriter.endList = .ok W' ↔
      ∃ writes, plan = some writes ∧
        W.wrote (W.impl.write W.all W.object i (.list length writes)) = .ok W' := by
  have begin_ : IsarWriter.beginList W i length = W.beginList i length := rfl
  simp only [begin_, NativeWriter.beginList, WriterImpl.write, fillNested,
    beginList_eq_map found elements]
  cases W.object.beginNested p.offset (UInt32.ofNat t.staticSize * length).toNat with
  | none => simp [bind, Except.bind, NativeWriter.wrote, orPanic, Except.map]
  | some begun =>
    obtain ⟨s, nested⟩ := begun
    show (fill ⟨W.all, none, .list t p.embeddedCollectionIndex length, nested⟩ >>= fun L =>
        pure (NativeWriter.endNested { W with object := s } L)) = .ok W' ↔
      ∃ writes, plan = some writes ∧
        W.wrote (((WriterImpl.list t p.embeddedCollectionIndex length).writeAll W.all nested
          writes).map s.endNested) = .ok W'
    simp only [bind_eq_ok, filled nested, NativeWriter.wrote_eq_ok]
    constructor
    · rintro ⟨L, ⟨writes, planned, s', eq, rfl⟩, ended⟩
      cases pure_eq_ok.mp ended
      exact ⟨writes, planned, s.endNested s', by rw [eq, Option.map_some], rfl⟩
    · rintro ⟨writes, planned, s', eq, rfl⟩
      obtain ⟨s'', eq', rfl⟩ := Option.map_eq_some_iff.mp eq
      exact ⟨_, ⟨writes, planned, s'', eq', rfl⟩, rfl⟩

/-- The collection of an embedded object. -/
theorem embedded_eq_some {all : List NativeCollection} {p : NativeProperty} {c : NativeCollection} :
    p.embedded all = some c ↔
      ∃ k, p.embeddedCollectionIndex = some k ∧ all[k.toNat]? = some c := by
  unfold NativeProperty.embedded
  rw [Option.bind_eq_bind, Option.bind_eq_some_iff]

theorem beginObject_eq_map {w : WriterImpl} {all : List NativeCollection} {s : IsarSerializer}
    {p : NativeProperty} {c : NativeCollection} (found : w.getProperty i = some p)
    (type : p.dataType = .object) (target : p.embedded all = some c) :
    w.beginObject all s i = (s.beginNested p.offset c.staticSize).map fun begun =>
      some (.object c, begun.1, begun.2) := by
  obtain ⟨k, index, there⟩ := embedded_eq_some.mp target
  unfold WriterImpl.beginObject
  rw [found]
  simp only [type, index, there, Option.bind_eq_bind, Option.bind_some]
  cases s.beginNested p.offset c.staticSize <;> rfl

/-- An object likewise, if its collection is there. -/
theorem beginObject_eq_ok {p : NativeProperty} {c : NativeCollection}
    {plan : Option (List (UInt32 × Written))} {fill : NativeWriter → Result NativeWriter}
    (found : W.impl.getProperty i = some p) (type : p.dataType = .object)
    (target : p.embedded W.all = some c)
    (filled : ∀ nested L, fill ⟨W.all, none, .object c, nested⟩ = .ok L ↔
      ∃ writes, plan = some writes ∧ NativeWriter.wrote ⟨W.all, none, .object c, nested⟩
        ((WriterImpl.object c).writeAll W.all nested writes) = .ok L) :
    fillNested (IsarWriter.beginObject W i) fill IsarWriter.endObject = .ok W' ↔
      ∃ writes, plan = some writes ∧
        W.wrote (W.impl.write W.all W.object i (.object writes)) = .ok W' := by
  have begin_ : IsarWriter.beginObject W i = W.beginObject i := rfl
  simp only [begin_, NativeWriter.beginObject, WriterImpl.write, fillNested,
    beginObject_eq_map found type target]
  cases W.object.beginNested p.offset c.staticSize with
  | none => simp [bind, Except.bind, NativeWriter.wrote, orPanic, Except.map]
  | some begun =>
    obtain ⟨s, nested⟩ := begun
    show (fill ⟨W.all, none, .object c, nested⟩ >>= fun L =>
        pure (NativeWriter.endNested { W with object := s } L)) = .ok W' ↔
      ∃ writes, plan = some writes ∧
        W.wrote (((WriterImpl.object c).writeAll W.all nested writes).map s.endNested) = .ok W'
    simp only [bind_eq_ok, filled nested, NativeWriter.wrote_eq_ok]
    constructor
    · rintro ⟨L, ⟨writes, planned, s', eq, rfl⟩, ended⟩
      cases pure_eq_ok.mp ended
      exact ⟨writes, planned, s.endNested s', by rw [eq, Option.map_some], rfl⟩
    · rintro ⟨writes, planned, s', eq, rfl⟩
      obtain ⟨s'', eq', rfl⟩ := Option.map_eq_some_iff.mp eq
      exact ⟨_, ⟨writes, planned, s'', eq', rfl⟩, rfl⟩

theorem writeAll_written_eq_ok {value : Option Written} {writes : List (UInt32 × Written)} :
    W.wrote (W.impl.writeAll W.all W.object (written i value ++ writes)) = .ok W' ↔
      ∃ s', W.writes i value = some s' ∧
        NativeWriter.wrote { W with object := s' } (W.impl.writeAll W.all s' writes) = .ok W' := by
  cases value with
  | none =>
    simp only [NativeWriter.writes, Option.some.injEq, exists_eq_left']
    rfl
  | some value => exact writeAll_cons_eq_ok

/-! ## Values without objects -/

/-- What a value is written as that may be null. -/
def orNull {α : Type} (written : α → Written) : Option α → Written
  | some value => written value
  | none => .null

theorem plannedScalar_eq (messages : JsonMessages) {α : Type} {as : Source → Option α}
    {written : α → Written} (expected : String) (source : Source) :
    plannedScalar as written source =
      ((messages.readOption as expected source).toOption).map (orNull written) := by
  cases source
  case null => rfl
  all_goals
    simp only [plannedScalar, JsonMessages.readOption, JsonMessages.read]
    split <;> rename_i eq <;> rw [eq] <;> rfl

section
variable {α : Type} {as : Source → Option α} {written : α → Written} {expected : String}
  {source : Source} {write : NativeWriter → UInt32 → α → Result NativeWriter}

theorem writeOption_eq
    (same : ∀ W i value, write W i value = W.wrote (W.impl.write W.all W.object i (written value)))
    (value : Option α) : writeOption W i write value =
      W.wrote (W.impl.write W.all W.object i (orNull written value)) := by
  cases value with
  | none => rfl
  | some value => exact same W i value

theorem writeScalar_eq_ok
    (same : ∀ W i value, write W i value = W.wrote (W.impl.write W.all W.object i (written value))) :
    writeScalar W i write (messages.readOption as expected source) = .ok W' ↔
      ∃ value, (plannedScalar as written source).map some = some value ∧
        W.wrote (W.writes i value) = .ok W' := by
  rw [plannedScalar_eq messages expected, writeScalar, bind_eq_ok]
  cases messages.readOption as expected source with
  | error e => simp [Except.toOption]
  | ok o =>
    simp only [Except.ok.injEq, exists_eq_left', Except.toOption, Option.map_some,
      Option.some.injEq, writeOption_eq same]
    rfl

/-- The loop over the elements writes them in turn. -/
theorem writeElements_eq_ok
    (same : ∀ W i value, write W i value = W.wrote (W.impl.write W.all W.object i (written value)))
    {values : List (Option α)} {n : Nat} : writeElements write W n values = .ok W' ↔
      W.wrote (W.impl.writeAll W.all W.object
        ((values.zipIdx n).map fun e => (UInt32.ofNat e.2, orNull written e.1))) = .ok W' := by
  induction values generalizing W n with
  | nil => rfl
  | cons value values ih =>
    rw [writeElements, writeOption_eq same, List.zipIdx_cons, List.map_cons, WriterImpl.writeAll,
      bind_eq_ok]
    cases W.impl.write W.all W.object (UInt32.ofNat n) (orNull written value) with
    | none => simp [NativeWriter.wrote, orPanic, Except.map]
    | some s =>
      simp only [NativeWriter.wrote, orPanic, Except.map, Except.ok.injEq, exists_eq_left']
      exact ih

theorem mapM_plannedScalar (messages : JsonMessages) (expected : String)
    (elements : List Source) : elements.mapM (plannedScalar as written) =
      ((elements.mapM (messages.readOption as expected)).toOption).map
        (List.map (orNull written)) := by
  induction elements with
  | nil => rfl
  | cons source elements ih =>
    rw [List.mapM_cons, List.mapM_cons, ih, plannedScalar_eq messages expected]
    cases messages.readOption as expected source with
    | error e => rfl
    | ok value =>
      cases elements.mapM (messages.readOption as expected) with
      | error e => rfl
      | ok values => rfl

theorem length_of_mapM_eq_ok {f : Source → Result α} {elements : List Source} {values : List α}
    (h : elements.mapM f = .ok values) : values.length = elements.length := by
  induction elements generalizing values with
  | nil =>
    cases h
    rfl
  | cons source elements ih =>
    rw [List.mapM_cons, bind_eq_ok] at h
    obtain ⟨value, -, h⟩ := h
    obtain ⟨rest, later, h⟩ := bind_eq_ok.mp h
    cases pure_eq_ok.mp h
    rw [List.length_cons, List.length_cons, ih later]

theorem writeList_eq_ok {p : NativeProperty} {t : DataType}
    (same : ∀ W i value, write W i value = W.wrote (W.impl.write W.all W.object i (written value)))
    (found : W.impl.getProperty i = some p) (elements : p.dataType.elementType = some t) :
    writeList W i write (messages.readList as expected source) = .ok W' ↔
      ∃ value, plannedList as written source = some value ∧
        W.wrote (W.writes i value) = .ok W' := by
  rw [writeList, bind_eq_ok]
  cases source with
  | null => simp [JsonMessages.readList, plannedList, NativeWriter.writes, NativeWriter.wrote,
      orPanic, Except.map, pure, Except.pure]
  | array raw elements_ =>
    simp only [JsonMessages.readList, plannedList, mapM_plannedScalar messages expected, map_eq_ok]
    cases list : elements_.mapM (messages.readOption as expected) with
    | error e => simp [Except.toOption]
    | ok values =>
      rw [← length_of_mapM_eq_ok list]
      have begun := @beginList_eq_ok W W' i (UInt32.ofNat values.length) p t
        (some (numbered (values.map (orNull written))))
        (fun listWriter => writeElements write listWriter 0 values) found elements fun _ _ => by
          rw [writeElements_eq_ok same, numbered, List.zipIdx_map, List.map_map]
          simp only [Option.some.injEq, exists_eq_left']
          rfl
      simp only [Option.some.injEq, exists_eq_left'] at begun
      simp only [Except.ok.injEq, exists_eq_left', Except.toOption, Option.map_some,
        Option.some.injEq]
      exact begun
  | _ => simp [JsonMessages.readList, plannedList]

end

theorem writeText_eq_ok {as : Source → Option (List Char)} {expected : String} {source : Source} :
    writeText W i (messages.readOption as expected source) = .ok W' ↔
      ∃ value, plannedText as source = some value ∧ W.wrote (W.writes i value) = .ok W' := by
  have eq : plannedText as source = ((messages.readOption as expected source).toOption).map
      fun o => o.map Written.string := by
    cases source
    case null => rfl
    all_goals
      simp only [plannedText, JsonMessages.readOption, JsonMessages.read]
      split <;> rename_i eq <;> rw [eq] <;> rfl
  rw [eq, writeText, bind_eq_ok]
  cases messages.readOption as expected source with
  | error e => simp [Except.toOption]
  | ok o =>
    simp only [Except.ok.injEq, exists_eq_left', Except.toOption, Option.map_some,
      Option.some.injEq]
    cases o <;> rfl

/-- The objects of a property are of a collection that is there. -/
def Embeds (all : List NativeCollection) (p : NativeProperty) : Prop :=
  p.dataType = .object ∨ p.dataType = .objectList → (p.embedded all).isSome

/-- A value that holds no object of its property is written as it is planned. -/
theorem visitFlat_eq_ok {p : NativeProperty} {source : Source}
    (found : W.impl.getProperty i = some p) (embeds : Embeds W.all p) :
    visitFlat messages W i p.dataType source = .ok W' ↔
      ∃ value, plannedFlat p.dataType source = some value ∧
        W.wrote (W.writes i value) = .ok W' := by
  cases type : p.dataType
  case string | json => exact writeText_eq_ok
  case bool | byte | int | float | long | double => exact writeScalar_eq_ok fun _ _ _ => rfl
  case object =>
    obtain ⟨c, target⟩ := Option.isSome_iff_exists.mp (embeds (Or.inl type))
    cases source
    case null => simp [visitFlat, plannedFlat, NativeWriter.writes, NativeWriter.wrote, orPanic,
      Except.map, pure, Except.pure]
    all_goals
      simp only [visitFlat, plannedFlat, reduceCtorEq, false_and, exists_false, iff_false]
      rw [@beginObject_eq_ok _ _ _ _ _ none _ found type target fun _ _ => by simp]
      simp
  case objectList =>
    cases source <;> simp [visitFlat, plannedFlat, NativeWriter.writes, NativeWriter.wrote, orPanic,
      Except.map, pure, Except.pure]
  all_goals
    refine writeList_eq_ok ?_ found (by rw [type]; rfl)
    exact fun _ _ _ => rfl

/-! ## Objects -/

section
variable {all : List NativeCollection} {strToId : List Char → Int64}

theorem find?_properties (c : NativeCollection) (idName : Option String) (s : IsarSerializer)
    (key : String) : findProperty (⟨all, idName, .object c, s⟩ : NativeWriter) key =
      (c.properties.zipIdx.find? fun p => p.1.1 == key).map
        fun p => (p.2 + 1, p.1.2.dataType) := by
  have properties : IsarWriter.properties (⟨all, idName, .object c, s⟩ : NativeWriter) =
      c.properties.map fun p => (p.1, p.2.dataType) := rfl
  rw [findProperty, properties, List.zipIdx_map, List.find?_map, Option.map_map]
  rfl

/-- A property that is found under a name. -/
theorem getElem?_of_find? {c : NativeCollection} {key : String}
    {e : (String × NativeProperty) × Nat}
    (found : (c.properties.zipIdx.find? fun p => p.1.1 == key) = some e) :
    c.properties[e.2]? = some (key, e.1.2) := by
  have named := List.find?_some found
  have there := List.mem_zipIdx_iff_getElem?.mp (List.mem_of_find?_eq_some found)
  obtain ⟨⟨name, p⟩, k⟩ := e
  simp only [beq_iff_eq] at named
  subst named
  exact there

theorem property_of_getElem? {c : NativeCollection} (few : c.properties.length < 2 ^ 16) {k : Nat}
    {name : String} {p : NativeProperty} (there : c.properties[k]? = some (name, p)) :
    (WriterImpl.object c).Addresses (UInt32.ofNat (k + 1)) ∧
      (WriterImpl.object c).property (UInt32.ofNat (k + 1)) = some p := by
  have lt := (List.getElem?_eq_some_iff.mp there).1
  have width : (UInt32.ofNat (k + 1)).toNat = k + 1 :=
    UInt32.toNat_ofNat_of_lt' (show k + 1 < 2 ^ 32 by omega)
  refine ⟨show (UInt32.ofNat (k + 1)).toNat < 2 ^ 16 by omega,
    WriterImpl.property_object.mpr ⟨fun zero => ?_, name, ?_⟩⟩
  · rw [zero] at width
    cases width
  · rw [width]
    exact there

/-- The property of a name is addressed by its index. -/
theorem property_of_named {c : NativeCollection} (few : c.properties.length < 2 ^ 16)
    {key : String} {i : UInt32} {p : NativeProperty} (named : c.named key = some (i, p)) :
    (WriterImpl.object c).Addresses i ∧ (WriterImpl.object c).property i = some p ∧
      (key, p) ∈ c.properties := by
  obtain ⟨e, found, eq⟩ := Option.map_eq_some_iff.mp named
  cases eq
  have there := getElem?_of_find? found
  obtain ⟨addressed, property⟩ := property_of_getElem? few there
  exact ⟨addressed, property, List.mem_of_getElem? there⟩

/-- Objects can be nested as the collections say. -/
def AllEmbeds (all : List NativeCollection) : Prop :=
  ∀ c ∈ all, ∀ p ∈ c.properties, Embeds all p.2

/-- A nested object has no id. -/
theorem sourceId_none {c : NativeCollection} (id : Option Int64)
    (entries : List (String × Source)) : c.sourceId strToId none id entries = some id := by
  induction entries with
  | nil => rfl
  | cons entry entries ih =>
    obtain ⟨key, source⟩ := entry
    rw [NativeCollection.sourceId]
    cases c.named key with
    | none => simpa using ih
    | some e => simpa using ih

/-- The writer of a planned list of objects. -/
theorem getProperty_element {e : Option UInt16} {k : Nat} {length : UInt32}
    (below : k < length.toNat) : ∃ q, (WriterImpl.list .object e length).getProperty
      (UInt32.ofNat k) = some q ∧ q.dataType = .object ∧ q.embeddedCollectionIndex = e := by
  have width : (UInt32.ofNat k).toNat = k :=
    UInt32.toNat_ofNat_of_lt' (show k < 2 ^ 32 by have := length.toNat_lt; omega)
  have inside : UInt32.ofNat k < length := by
    rw [UInt32.lt_iff_toNat_lt, width]
    exact below
  exact ⟨_, if_pos inside, rfl, rfl⟩

theorem unwrapNested_beginObject {p : NativeProperty} {c : NativeCollection}
    (found : W.impl.getProperty i = some p) (type : p.dataType = .object)
    (target : p.embedded W.all = some c) :
    unwrapNested (IsarWriter.beginObject W i) = IsarWriter.beginObject W i := by
  have begin_ : IsarWriter.beginObject W i = W.beginObject i := rfl
  rw [begin_, NativeWriter.beginObject, beginObject_eq_map found type target]
  cases W.object.beginNested p.offset c.staticSize <;> rfl

/-- An element of a list of objects, whose visit fails. -/
theorem fillNested_element_ne_ok {p : NativeProperty} {c : NativeCollection} {length : UInt32}
    {s : IsarSerializer} {k : Nat} (target : p.embedded all = some c) (below : k < length.toNat)
    {message : String} {a : NativeWriter} :
    fillNested (unwrapNested (IsarWriter.beginObject
        (⟨all, none, .list .object p.embeddedCollectionIndex length, s⟩ : NativeWriter)
        (UInt32.ofNat k)))
      (fun _ => messages.nest (fail (.jsonError message))) IsarWriter.endObject ≠ .ok a := by
  obtain ⟨q, found, type, index⟩ := @getProperty_element p.embeddedCollectionIndex k length below
  have targetQ : q.embedded all = some c := by
    rw [NativeProperty.embedded, index]
    exact target
  have never := @beginObject_eq_ok
    ⟨all, none, .list .object p.embeddedCollectionIndex length, s⟩ a (UInt32.ofNat k) q c none
    (fun _ => messages.nest (fail (.jsonError message))) found type targetQ fun _ _ => by simp
  rw [unwrapNested_beginObject found type targetQ]
  intro done
  obtain ⟨_, impossible, -⟩ := never.mp done
  cases impossible

/-- The visit of a nested object, which drops the id. -/
theorem nestedVisit_eq_ok {c : NativeCollection} {nested : IsarSerializer}
    {entries : List (String × Source)}
    (visited : ∀ id L,
      visitMap messages strToId (⟨all, none, .object c, nested⟩ : NativeWriter) none entries =
          .ok (id, L) ↔
        ∃ writes, plannedMap all c entries = some writes ∧
          c.sourceId strToId none none entries = some id ∧
          NativeWriter.wrote ⟨all, none, .object c, nested⟩
            ((WriterImpl.object c).writeAll all nested writes) = .ok L) (L : NativeWriter) :
    (messages.nest (visitMap messages strToId (⟨all, none, .object c, nested⟩ : NativeWriter) none
        entries)).map Prod.snd = .ok L ↔
      ∃ writes, plannedMap all c entries = some writes ∧
        NativeWriter.wrote ⟨all, none, .object c, nested⟩
          ((WriterImpl.object c).writeAll all nested writes) = .ok L := by
  simp only [map_eq_ok, JsonMessages.nest_eq_ok, Prod.exists, exists_eq_right, visited,
    sourceId_none]
  constructor
  · rintro ⟨_, writes, planned, -, wrote⟩
    exact ⟨writes, planned, wrote⟩
  · rintro ⟨writes, planned, wrote⟩
    exact ⟨none, writes, planned, rfl, wrote⟩

/-- The id behind the value of a property. -/
theorem sourceId_cons {c : NativeCollection} {idName : Option String} {s : IsarSerializer}
    {key : String} {j : UInt32} {p : NativeProperty} (named : c.named key = some (j, p))
    (id : Option Int64) (source : Source) (entries : List (String × Source)) :
    c.sourceId strToId idName id ((key, source) :: entries) =
      c.sourceId strToId idName (visitedId strToId (⟨all, idName, .object c, s⟩ : NativeWriter) key
        p.dataType id source) entries := by
  rw [NativeCollection.sourceId, named, visitedId]
  have name : IsarWriter.idName (⟨all, idName, .object c, s⟩ : NativeWriter) = idName := rfl
  rw [name]
  by_cases text : p.dataType = .string ∧ idName = some key
  · simp only [if_pos text]
    cases source.asStr <;> rfl
  · simp only [if_neg text]

mutual

/-- A property is written as it is planned. -/
theorem visitProperty_eq_ok (few : ∀ c ∈ all, c.properties.length < 2 ^ 16)
    (embeds : AllEmbeds all) {idName : Option String} {impl : WriterImpl} {s : IsarSerializer}
    {i : UInt32} {p : NativeProperty} (found : impl.getProperty i = some p) (own : Embeds all p)
    {W' : NativeWriter} : ∀ {source : Source}, Plain source →
      (visitProperty messages strToId (⟨all, idName, impl, s⟩ : NativeWriter) i p.dataType source =
          .ok W' ↔
        ∃ value, planned all p source = some value ∧
          NativeWriter.wrote ⟨all, idName, impl, s⟩
            (NativeWriter.writes ⟨all, idName, impl, s⟩ i value) = .ok W')
  | .object raw entries, plain => by
    rw [visitProperty, planned]
    by_cases type : p.dataType = .object
    · obtain ⟨c, target⟩ := Option.isSome_iff_exists.mp (own (Or.inl type))
      rw [if_pos type, if_pos type, target]
      simp only [Option.map_eq_some_iff, exists_exists_and_eq_and]
      refine beginObject_eq_ok found type target fun nested L => ?_
      exact nestedVisit_eq_ok (fun _ _ => visitMap_eq_ok few embeds (mem_of_embedded target) plain.2) L
    · rw [if_neg type, if_neg type]
      exact visitFlat_eq_ok found own
  | .array raw elements, plain => by
    rw [visitProperty, planned]
    by_cases type : p.dataType = .objectList
    · obtain ⟨c, target⟩ := Option.isSome_iff_exists.mp (own (Or.inr type))
      rw [if_pos type, if_pos type]
      simp only [Option.map_eq_some_iff, exists_exists_and_eq_and]
      have length : (UInt32.ofNat elements.length).toNat = elements.length :=
        UInt32.toNat_ofNat_of_lt' plain.1
      refine beginList_eq_ok found (by rw [type]; rfl) fun nested L => ?_
      exact visitObjects_eq_ok few embeds target (by omega) plain.2
    · rw [if_neg type, if_neg type]
      exact visitFlat_eq_ok found own
  | .null, _ | .bool _, _ | .number _ _, _ | .string _ _, _ => by
    rw [visitProperty, planned]
    · exact visitFlat_eq_ok found own
    all_goals intro _ _ eq; cases eq

theorem visitObjects_eq_ok (few : ∀ c ∈ all, c.properties.length < 2 ^ 16)
    (embeds : AllEmbeds all) {p : NativeProperty} {c : NativeCollection}
    (target : p.embedded all = some c) {length : UInt32} {s : IsarSerializer} {L : NativeWriter} :
    ∀ {k : Nat} {elements : List Source}, k + elements.length ≤ length.toNat →
      PlainElements elements →
      (visitObjects messages strToId
          (⟨all, none, .list .object p.embeddedCollectionIndex length, s⟩ : NativeWriter) k elements =
          .ok L ↔
        ∃ writes, plannedObjects all p k elements = some writes ∧
          NativeWriter.wrote ⟨all, none, .list .object p.embeddedCollectionIndex length, s⟩
            ((WriterImpl.list .object p.embeddedCollectionIndex length).writeAll all s writes) =
              .ok L)
  | k, [], _, _ => by
    simp only [visitObjects, plannedObjects, Option.some.injEq, exists_eq_left',
      WriterImpl.writeAll]
    rfl
  | k, .null :: elements, bound, plain => by
    rw [List.length_cons] at bound
    rw [visitObjects, plannedObjects, bind_eq_ok]
    constructor
    · rintro ⟨a, first, rest⟩
      obtain ⟨s', eq, rfl⟩ := NativeWriter.wrote_eq_ok.mp first
      obtain ⟨writes, planned, wrote⟩ :=
        (visitObjects_eq_ok few embeds target (by omega) plain.2).mp rest
      exact ⟨_, Option.map_eq_some_iff.mpr ⟨writes, planned, rfl⟩,
        writeAll_cons_eq_ok.mpr ⟨s', eq, wrote⟩⟩
    · rintro ⟨_, planned, wrote⟩
      obtain ⟨writes, rest, rfl⟩ := Option.map_eq_some_iff.mp planned
      obtain ⟨s', eq, wrote⟩ := writeAll_cons_eq_ok.mp wrote
      exact ⟨_, NativeWriter.wrote_eq_ok.mpr ⟨s', eq, rfl⟩,
        (visitObjects_eq_ok few embeds target (by omega) plain.2).mpr ⟨writes, rest, wrote⟩⟩
  | k, .object raw entries :: elements, bound, plain => by
    rw [List.length_cons] at bound
    obtain ⟨q, found, type, index⟩ := @getProperty_element p.embeddedCollectionIndex k length
      (by omega)
    have targetQ : q.embedded all = some c := by
      rw [NativeProperty.embedded, index]
      exact target
    have object (W' : NativeWriter) := @beginObject_eq_ok
      ⟨all, none, .list .object p.embeddedCollectionIndex length, s⟩ W' (UInt32.ofNat k) q c
      (plannedMap all c entries)
      (fun W => (messages.nest (visitMap messages strToId W none entries)).map Prod.snd) found type
      targetQ fun nested =>
        nestedVisit_eq_ok fun _ _ => visitMap_eq_ok few embeds (mem_of_embedded target) plain.1.2
    rw [visitObjects, plannedObjects, target, bind_eq_ok,
      unwrapNested_beginObject found type targetQ]
    constructor
    · rintro ⟨a, first, rest⟩
      obtain ⟨inner, plannedInner, wrote⟩ := (object a).mp first
      obtain ⟨s', eq, rfl⟩ := NativeWriter.wrote_eq_ok.mp wrote
      obtain ⟨writes, planned, wrote⟩ :=
        (visitObjects_eq_ok few embeds target (by omega) plain.2).mp rest
      refine ⟨(UInt32.ofNat k, .object inner) :: writes, ?_,
        writeAll_cons_eq_ok.mpr ⟨s', eq, wrote⟩⟩
      simp [plannedInner, planned]
    · rintro ⟨_, planned, wrote⟩
      simp only [Option.bind_eq_bind, Option.bind_eq_some_iff, Option.pure_def,
        Option.some.injEq] at planned
      obtain ⟨inner, plannedInner, writes, planned, rfl⟩ := planned
      obtain ⟨s', eq, wrote⟩ := writeAll_cons_eq_ok.mp wrote
      exact ⟨_, (object _).mpr ⟨inner, plannedInner, NativeWriter.wrote_eq_ok.mpr ⟨s', eq, rfl⟩⟩,
        (visitObjects_eq_ok few embeds target (by omega) plain.2).mpr ⟨writes, planned, wrote⟩⟩
  | k, .bool _ :: _, bound, _ | k, .number _ _ :: _, bound, _ | k, .string _ _ :: _, bound, _
  | k, .array _ _ :: _, bound, _ => by
    rw [List.length_cons] at bound
    simp only [visitObjects, plannedObjects, bind_eq_ok]
    constructor
    · rintro ⟨a, first, -⟩
      exact absurd first (fillNested_element_ne_ok target (by omega))
    · rintro ⟨_, impossible, -⟩
      cases impossible

/-- An object is written as its fields are planned, and its id is found. -/
theorem visitMap_eq_ok (few : ∀ c ∈ all, c.properties.length < 2 ^ 16) (embeds : AllEmbeds all)
    {c : NativeCollection} (mem : c ∈ all) {idName : Option String} {s : IsarSerializer}
    {id id' : Option Int64} {W' : NativeWriter} :
    ∀ {entries : List (String × Source)}, PlainEntries entries →
      (visitMap messages strToId (⟨all, idName, .object c, s⟩ : NativeWriter) id entries =
          .ok (id', W') ↔
        ∃ writes, plannedMap all c entries = some writes ∧
          c.sourceId strToId idName id entries = some id' ∧
          NativeWriter.wrote ⟨all, idName, .object c, s⟩
            ((WriterImpl.object c).writeAll all s writes) = .ok W')
  | [], _ => by
    simp only [visitMap, plannedMap, NativeCollection.sourceId, Option.some.injEq, exists_eq_left',
      WriterImpl.writeAll, Except.ok.injEq, Prod.mk.injEq]
    refine and_congr_right fun _ => ?_
    show _ ↔ Except.ok (⟨all, idName, .object c, s⟩ : NativeWriter) = .ok W'
    rw [Except.ok.injEq]
  | (key, source) :: entries, plain => by
    cases found : c.properties.zipIdx.find? fun p => p.1.1 == key with
    | none =>
      have named : c.named key = none := by rw [NativeCollection.named, found]; rfl
      have name : IsarWriter.idName (⟨all, idName, .object c, s⟩ : NativeWriter) = idName := rfl
      rw [visitMap, find?_properties, found, plannedMap, NativeCollection.sourceId, named]
      simp only [Option.map_none, name]
      by_cases isId : idName = some key
      · rw [if_pos isId, if_pos isId, bind_eq_ok]
        simp only [JsonMessages.read_eq_ok]
        cases source.asI64 with
        | none => simp
        | some value =>
          simp only [Option.some.injEq, exists_eq_left']
          exact visitMap_eq_ok few embeds mem plain.2
      · rw [if_neg isId, if_neg isId]
        exact visitMap_eq_ok few embeds mem plain.2
    | some e =>
      obtain ⟨⟨name, p⟩, k⟩ := e
      have named : c.named key = some (UInt32.ofNat (k + 1), p) := by
        rw [NativeCollection.named, found]
        rfl
      obtain ⟨addressed, property, memP⟩ := property_of_named (few c mem) named
      have own := embeds c mem _ memP
      have exact_ := WriterImpl.exact_object c _ p addressed property
      rw [visitMap, find?_properties, found, sourceId_cons named, plannedMap, named]
      simp only [Option.map_some]
      rw [bind_eq_ok]
      constructor
      · rintro ⟨a, first, rest⟩
        obtain ⟨value, planned, wrote⟩ :=
          (visitProperty_eq_ok few embeds exact_ own plain.1).mp first
        obtain ⟨s', eq, rfl⟩ := NativeWriter.wrote_eq_ok.mp wrote
        obtain ⟨writes, plannedRest, id, wrote⟩ := (visitMap_eq_ok few embeds mem plain.2).mp rest
        refine ⟨written _ value ++ writes, ?_, id, writeAll_written_eq_ok.mpr ⟨s', eq, wrote⟩⟩
        simp [planned, plannedRest]
      · rintro ⟨_, planned, id, wrote⟩
        simp only [Option.bind_eq_bind, Option.bind_eq_some_iff, Option.pure_def,
          Option.some.injEq] at planned
        obtain ⟨value, planned, writes, plannedRest, rfl⟩ := planned
        obtain ⟨s', eq, wrote⟩ := writeAll_written_eq_ok.mp wrote
        exact ⟨_, (visitProperty_eq_ok few embeds exact_ own plain.1).mpr
            ⟨value, planned, NativeWriter.wrote_eq_ok.mpr ⟨s', eq, rfl⟩⟩,
          (visitMap_eq_ok few embeds mem plain.2).mpr ⟨writes, plannedRest, id, wrote⟩⟩

end

end

end

end IsarPlus.Native
