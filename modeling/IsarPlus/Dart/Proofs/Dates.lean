import IsarPlus.Dart.DateTime
import IsarPlus.Native.Proofs.MinMax
import IsarPlus.Native.QueryBuilder
import IsarPlus.Sqlite.Proofs.Aggregates

/-!
# Dates on all paths

Dates are written, read, compared and updated as microseconds since the epoch, and the result of an
aggregation is taken for milliseconds.
-/

namespace IsarPlus.Dart
open ByteBuffer Scalar Sql
open Native (NativeProperty NativeCollection IsarSerializer QueryObject IsExtreme)

/-! ## Engines -/

/-- The column of a property that holds a long. -/
def longColumn (v : Int64) : Value := if v ≠ nullLong then .integer v else .null

/-- What an engine returns for the minimum or the maximum of a property whose objects hold the
values. -/
inductive EngineExtreme (isMin : Bool) (values : List Int64) (result : Option IsarValue) : Prop
  | native (objects : List QueryObject) (p : NativeProperty) (long : p.dataType = .long)
      (stored : objects.mapM (fun o => o.2.readLong p.offset) = some values)
      (returned : Native.aggregateMinMax objects (some p) isMin = some result)
  | sqlite (casts : Sqlite.Casts) (numerals : Numerals) (c : Sqlite.SQLiteCollection)
      (propertyIndex : Option UInt16) (rows selected : Sqlite.TableRows Sqlite.Row)
      (long : Sqlite.aggregatedType c propertyIndex = .long)
      (stored : Sqlite.columnValues (Sqlite.aggregatedName c propertyIndex) rows =
        values.map longColumn)
      (returned : Sqlite.aggregate casts numerals c (if isMin then .min else .max) propertyIndex
        [rows] selected = some result)

/-- The value is the number in an operand of a filter and in an update, in both engines. -/
structure NamesNumber (value : Option IsarValue) (number : Int64) : Prop where
  nativeFilter : Native.operand IsarValue.i64? Int64.minValue value = some number
  nativeUpdate : ∀ (c : NativeCollection) (object : IsarSerializer) (i : UInt16)
    (p : NativeProperty), c.getProperty i = some p → p.dataType = .long →
      c.writeValue object i value = orPanic (object.writeLong p.offset number)
  sqlite : (value.map fun v => (Sqlite.QueryParam.value v).bound).getD .null = longColumn number

/-! ## Consistency -/

/-- The instants that are not null. -/
def instants (values : List (Option DateTime)) : List Int :=
  values.reduceOption.map DateTime.microsecondsSinceEpoch

/-- The instant is the least of the list, or the greatest, and `none` if there are none. -/
def IsExtremeInstant (isMin : Bool) (all : List Int) : Option Int → Prop
  | none => all = []
  | some m => m ∈ all ∧ ∀ n ∈ all, if isMin then m ≤ n else n ≤ m

/-- The aggregation of a date returns an instant of the list. -/
def AggregatesTo (isMin : Bool) (values : List (Option DateTime)) (result : Option IsarValue) :
    Prop :=
  ∃ date, aggregateDate result = some date ∧
    IsExtremeInstant isMin (instants values) (date.map DateTime.microsecondsSinceEpoch)

/-- Every path has the same instant for a date. -/
structure DatesConsistent (nullable utc : Bool) (values : List (Option DateTime))
    (min max : Option IsarValue) : Prop where
  read : ∀ value ∈ values, ∃ date, readDate nullable utc (writeDate value) = some date ∧
    date.map DateTime.microsecondsSinceEpoch = value.map DateTime.microsecondsSinceEpoch
  named : ∀ value, NamesNumber (isarValue value) (writeDate value)
  min : AggregatesTo true values min
  max : AggregatesTo false values max

/-! ## Numbers -/

theorem toInt_writeDate (d : DateTime) :
    (writeDate (some d)).toInt = d.microsecondsSinceEpoch := by
  have bound := d.inRange
  have same : d.toUtc.microsecondsSinceEpoch = d.microsecondsSinceEpoch := rfl
  exact Int64.toInt_ofInt_of_le (by omega) (by omega)

theorem writeDate_ne_null (d : DateTime) : writeDate (some d) ≠ nullLong := by
  intro same
  have value := toInt_writeDate d
  have least : nullLong.toInt = -2 ^ 63 := rfl
  rw [same, least] at value
  have bound := d.inRange
  omega

theorem readDate_writeDate {nullable utc : Bool} {value : Option DateTime}
    (typed : nullable = false → value ≠ none) :
    ∃ date, readDate nullable utc (writeDate value) = some date ∧
      date.map DateTime.microsecondsSinceEpoch = value.map DateTime.microsecondsSinceEpoch := by
  cases value with
  | none =>
    cases nullable with
    | false => exact absurd rfl (typed rfl)
    | true => exact ⟨none, rfl, rfl⟩
  | some d =>
    have within : (writeDate (some d)).toInt.natAbs ≤ 8640000000000000000 := by
      rw [toInt_writeDate]
      exact d.inRange
    unfold readDate DateTime.fromMicrosecondsSinceEpoch
    rw [if_neg (writeDate_ne_null d), dif_pos within]
    refine ⟨_, rfl, ?_⟩
    cases utc
    · exact congrArg some (toInt_writeDate d)
    · exact congrArg some (toInt_writeDate d)

theorem namesNumber_isarValue (value : Option DateTime) :
    NamesNumber (isarValue value) (writeDate value) := by
  cases value with
  | none =>
    refine ⟨rfl, fun c object i p property long => ?_, rfl⟩
    unfold NativeCollection.writeValue isarValue
    rw [property]
    show orPanic (object.writeNull p.offset p.dataType) = _
    rw [long]
    rfl
  | some d =>
    refine ⟨rfl, fun c object i p property long => ?_, ?_⟩
    · unfold NativeCollection.writeValue isarValue
      rw [property]
      simp only [Option.map_some, long]
      rfl
    · unfold longColumn
      rw [if_pos (writeDate_ne_null d)]
      rfl

/-! ## Aggregations -/

/-- The values that an engine has for the dates. -/
def storedDates (values : List (Option DateTime)) : List IsarValue :=
  values.reduceOption.map fun d => .integer (writeDate (some d))

theorem reduceOption_map_of_null {present : Int64 → Option IsarValue}
    (null : present nullLong = none) (some_ : ∀ v ≠ nullLong, present v = some (.integer v))
    (values : List (Option DateTime)) :
    ((values.map writeDate).map present).reduceOption = storedDates values := by
  induction values with
  | nil => rfl
  | cons value values ih =>
    cases value with
    | none =>
      rw [List.map_cons, List.map_cons, show writeDate none = nullLong from rfl, null,
        List.reduceOption_cons_of_none, ih]
      rfl
    | some d =>
      rw [List.map_cons, List.map_cons, some_ _ (writeDate_ne_null d),
        List.reduceOption_cons_of_some, ih]
      rfl

theorem mapM_present {α β : Type} {read : QueryObject → Option α} (present : α → β)
    {objects : List QueryObject} {values : List α} (h : objects.mapM read = some values) :
    (objects.mapM fun o => (read o).map present) = some (values.map present) := by
  induction objects generalizing values with
  | nil =>
    cases h
    rfl
  | cons o objects ih =>
    rw [List.mapM_cons] at h ⊢
    obtain ⟨v, first, h⟩ := Option.bind_eq_some_iff.mp h
    obtain ⟨rest, later, eq⟩ := Option.bind_eq_some_iff.mp h
    cases eq
    rw [first, ih later]
    rfl

theorem heldAs_longColumn (v : Int64) : Sqlite.HeldAs .long (longColumn v) := by
  unfold longColumn
  by_cases some_ : v ≠ nullLong
  · rw [if_pos some_]
    exact Or.inr ⟨v, rfl⟩
  · rw [if_neg some_]
    exact Or.inl rfl

theorem heldValue_longColumn (v : Int64) :
    Sqlite.heldValue .long (longColumn v) = if v ≠ nullLong then some (.integer v) else none := by
  unfold longColumn
  by_cases some_ : v ≠ nullLong
  · rw [if_pos some_, if_pos some_]
    rfl
  · rw [if_neg some_, if_neg some_]
    rfl

/-- Both engines return the extreme of the numbers. -/
theorem isExtreme_of_engine {isMin : Bool} {values : List (Option DateTime)}
    {result : Option IsarValue} (engine : EngineExtreme isMin (values.map writeDate) result) :
    IsExtreme isMin (storedDates values) result := by
  cases engine with
  | native objects p long stored returned =>
    have read : objects.mapM (Native.aggregatedValue (some p)) =
        some ((values.map writeDate).map fun v =>
          if v ≠ nullLong then some (.integer v) else none) := by
      unfold Native.aggregatedValue
      simp only [long]
      exact mapM_present (fun v => if v ≠ nullLong then some (IsarValue.integer v) else none) stored
    obtain ⟨result', found, exact_⟩ := Native.aggregateMinMax_exact isMin read
    cases returned.symm.trans found
    rw [reduceOption_map_of_null rfl fun v some_ => if_pos some_] at exact_
    apply exact_.mpr
    cases dates : storedDates values with
    | nil => exact Or.inl rfl
    | cons v rest =>
      refine Or.inr ⟨v, List.mem_cons_self, ?_⟩
      obtain ⟨d, -, rfl⟩ := List.mem_map.mp (dates ▸ List.mem_cons_self : v ∈ storedDates values)
      have bound := d.inRange
      unfold Native.startValue
      simp only [long]
      show some (cmp (writeDate (some d)).toInt (Native.longMinMax.start isMin).toInt) = _
      rw [toInt_writeDate]
      cases isMin with
      | true =>
        refine congrArg some ((cmp_eq_lt_iff _ _).mpr ?_)
        show _ < (2 ^ 63 - 1 : Int)
        omega
      | false =>
        refine congrArg some ((cmp_eq_gt_iff _ _).mpr ?_)
        show (-2 ^ 63 : Int) < _
        omega
  | sqlite casts numerals c propertyIndex rows selected long stored returned =>
    have held : ∀ v ∈ (values.map writeDate).map longColumn, Sqlite.HeldAs .long v := by
      intro v mem
      obtain ⟨n, -, rfl⟩ := List.mem_map.mp mem
      exact heldAs_longColumn n
    obtain ⟨heldV, best⟩ := @Sqlite.isExtreme_extreme .long isMin _ held
    have present : Sqlite.propertyValues .long ((values.map writeDate).map longColumn) =
        storedDates values := by
      have dates := @reduceOption_map_of_null
        (fun v => if v ≠ nullLong then some (.integer v) else none) rfl
        (fun v some_ => if_pos some_) values
      rw [← dates, List.reduceOption, List.filterMap_map]
      unfold Sqlite.propertyValues
      rw [List.filterMap_map]
      exact List.filterMap_congr fun v _ => heldValue_longColumn v
    have found : some (Sqlite.aggregateResult casts (if isMin then .min else .max) .long
        (some (extreme isMin ((values.map writeDate).map longColumn)))) = some result := by
      rw [← returned, Sqlite.aggregate_eq_first (by cases isMin <;> decide), long, ← stored]
      cases isMin <;> rfl
    rw [Sqlite.aggregateResult_extreme heldV] at found
    rw [← Option.some.inj found, ← present]
    exact best

/-- What an engine returns for dates: nothing, or the number of the earliest or the latest. -/
theorem engine_dates {isMin : Bool} {values : List (Option DateTime)} {result : Option IsarValue}
    (engine : EngineExtreme isMin (values.map writeDate) result) :
    (result = none ∧ instants values = []) ∨
      ∃ d, result = some (.integer (writeDate (some d))) ∧
        IsExtremeInstant isMin (instants values) (some d.microsecondsSinceEpoch) := by
  have extreme_ := isExtreme_of_engine engine
  cases result with
  | none =>
    have none_ : storedDates values = [] := extreme_
    refine Or.inl ⟨rfl, ?_⟩
    unfold instants
    rw [List.map_eq_nil_iff.mp none_]
    rfl
  | some v =>
    obtain ⟨mem, beyond⟩ := extreme_
    obtain ⟨d, memD, rfl⟩ := List.mem_map.mp mem
    refine Or.inr ⟨d, rfl, List.mem_map_of_mem memD, fun n memN => ?_⟩
    obtain ⟨e, memE, rfl⟩ := List.mem_map.mp memN
    have order := beyond _ (List.mem_map_of_mem memE)
    have compare : (IsarValue.integer (writeDate (some d))).partialCmp
        (.integer (writeDate (some e))) =
          some (cmp d.microsecondsSinceEpoch e.microsecondsSinceEpoch) := by
      rw [← toInt_writeDate d, ← toInt_writeDate e]
      rfl
    rw [compare, Option.some.injEq, Option.some.injEq] at order
    cases isMin with
    | true =>
      rcases order with less | same
      · exact ((cmp_eq_lt_iff _ _).mp less).le
      · exact ((cmp_eq_eq_iff _ _).mp same).le
    | false =>
      rcases order with less | same
      · exact ((cmp_eq_gt_iff _ _).mp less).le
      · exact ((cmp_eq_eq_iff _ _).mp same).ge

/-- The microseconds are taken for milliseconds. -/
theorem aggregateDate_writeDate {d : DateTime} {date : Option DateTime}
    (h : aggregateDate (some (.integer (writeDate (some d)))) = some date) :
    date.map DateTime.microsecondsSinceEpoch = some (d.microsecondsSinceEpoch * 1000) := by
  obtain ⟨decoded, eq, rfl⟩ := Option.map_eq_some_iff.mp h
  have number : (getInteger (.integer (writeDate (some d)))).toInt = d.microsecondsSinceEpoch :=
    toInt_writeDate d
  unfold DateTime.fromMillisecondsSinceEpoch DateTime.fromMicrosecondsSinceEpoch at eq
  rw [number] at eq
  split at eq
  · cases eq
    rfl
  · cases eq

/-- The minimum or the maximum is right just when there is none or it is the epoch. -/
theorem aggregatesTo_iff {isMin : Bool} {values : List (Option DateTime)}
    {result : Option IsarValue} (engine : EngineExtreme isMin (values.map writeDate) result) :
    AggregatesTo isMin values result ↔
      instants values = [] ∨ IsExtremeInstant isMin (instants values) (some 0) := by
  rcases engine_dates engine with ⟨rfl, none_⟩ | ⟨d, rfl, extreme_⟩
  · exact iff_of_true ⟨none, rfl, none_⟩ (Or.inl none_)
  · have some_ : instants values ≠ [] := List.ne_nil_of_mem extreme_.1
    rw [or_iff_right some_]
    constructor
    · intro ⟨date, decoded, right⟩
      rw [aggregateDate_writeDate decoded] at right
      have first := right.2 _ extreme_.1
      have second := extreme_.2 _ right.1
      have zero : d.microsecondsSinceEpoch = 0 := by
        cases isMin <;> simp only [Bool.false_eq_true, if_true, if_false] at first second <;> omega
      exact zero ▸ extreme_
    · intro epoch
      have first := epoch.2 _ extreme_.1
      have second := extreme_.2 _ epoch.1
      have zero : d.microsecondsSinceEpoch = 0 := by
        cases isMin <;> simp only [Bool.false_eq_true, if_true, if_false] at first second <;> omega
      have number : writeDate (some d) = 0 := by
        rw [← Int64.toInt_inj, toInt_writeDate, zero]
        rfl
      rw [number]
      exact ⟨some ⟨0, false, by decide⟩, rfl, epoch⟩

/-- The dates of a property are the same on all paths just when every date that is stored is the
epoch. -/
theorem dates_consistent_iff (nullable utc : Bool) {values : List (Option DateTime)}
    (typed : nullable = false → none ∉ values) {min max : Option IsarValue}
    (minimum : EngineExtreme true (values.map writeDate) min)
    (maximum : EngineExtreme false (values.map writeDate) max) :
    DatesConsistent nullable utc values min max ↔
      ∀ d, some d ∈ values → d.microsecondsSinceEpoch = 0 := by
  have members (n : Int) :
      n ∈ instants values ↔ ∃ d, some d ∈ values ∧ d.microsecondsSinceEpoch = n := by
    unfold instants
    rw [List.mem_map]
    simp only [List.reduceOption_mem_iff]
  have zeros : (∀ n ∈ instants values, n = 0) ↔
      ∀ d, some d ∈ values → d.microsecondsSinceEpoch = 0 := by
    constructor
    · intro h d mem
      exact h _ ((members _).mpr ⟨d, mem, rfl⟩)
    · intro h n mem
      obtain ⟨d, memD, rfl⟩ := (members n).mp mem
      exact h d memD
  rw [← zeros]
  constructor
  · intro consistent n mem
    have some_ : instants values ≠ [] := List.ne_nil_of_mem mem
    have earliest := ((aggregatesTo_iff minimum).mp consistent.min).resolve_left some_
    have latest := ((aggregatesTo_iff maximum).mp consistent.max).resolve_left some_
    have above : 0 ≤ n := earliest.2 n mem
    have below : n ≤ 0 := latest.2 n mem
    omega
  · intro epoch
    have extremes (isMin : Bool) :
        instants values = [] ∨ IsExtremeInstant isMin (instants values) (some 0) := by
      cases all : instants values with
      | nil => exact Or.inl rfl
      | cons n rest =>
        rw [all] at epoch
        refine Or.inr ⟨?_, fun m mem => ?_⟩
        · rw [epoch n List.mem_cons_self]
          exact List.mem_cons_self
        · rw [epoch m mem]
          cases isMin <;> exact le_rfl
    exact
      { read := fun value mem => readDate_writeDate fun plain none_ => typed plain (none_ ▸ mem)
        named := namesNumber_isarValue
        min := (aggregatesTo_iff minimum).mpr (extremes true)
        max := (aggregatesTo_iff maximum).mpr (extremes false) }

/-! ### One object -/

/-- The first second after the epoch, and the epoch. -/
def oneSecond : DateTime := ⟨1000000, true, by decide⟩

def epoch : DateTime := ⟨0, true, by decide⟩

/-- An object whose only property is a date. -/
def datedObject (value : Option DateTime) : QueryObject := (1, ⟨i64Le (writeDate value), 8⟩)

def dateProperty : NativeProperty := ⟨.long, 0, none⟩

/-- The minimum of one second is a quarter of an hour. -/
theorem dates_inconsistent :
    ¬ ∀ min max, EngineExtreme true ([some oneSecond].map writeDate) min →
      EngineExtreme false ([some oneSecond].map writeDate) max →
        DatesConsistent true false [some oneSecond] min max := by
  intro consistent
  have stored : [datedObject (some oneSecond)].mapM
      (fun o => o.2.readLong dateProperty.offset) = some [writeDate (some oneSecond)] := by
    decide +kernel
  have engine (isMin : Bool) : EngineExtreme isMin [writeDate (some oneSecond)]
      (some (.integer 1000000)) :=
    .native [datedObject (some oneSecond)] dateProperty rfl stored (by
      cases isMin <;> decide +kernel)
  obtain ⟨date, decoded, extreme_⟩ := (consistent _ _ (engine true) (engine false)).min
  have later := @aggregateDate_writeDate oneSecond date decoded
  rw [later] at extreme_
  exact absurd extreme_.1 (by decide)

theorem dates_consistent_at_epoch :
    DatesConsistent true false [some epoch, none] (some (.integer 0)) (some (.integer 0)) ↔
      ∀ d, some d ∈ [some epoch, none] → d.microsecondsSinceEpoch = 0 := by
  have stored : [datedObject (some epoch), datedObject none].mapM
      (fun o => o.2.readLong dateProperty.offset) = some [0, nullLong] := by
    decide +kernel
  have engine (isMin : Bool) : EngineExtreme isMin [0, nullLong] (some (.integer 0)) :=
    .native [datedObject (some epoch), datedObject none] dateProperty rfl stored (by
      cases isMin <;> decide +kernel)
  exact dates_consistent_iff true false nofun (engine true) (engine false)

end IsarPlus.Dart
