import IsarPlus.Sqlite.Proofs.Migration

/-!
# Declared types of columns

A column of objects is declared with the name of their collection. When the type is decoded, a name
that is a built-in one in any case, or that ends in `[]`, is not taken for a collection.
-/

namespace IsarPlus.Sqlite
open IsarSchema

/-- The names that `sql_data_type` knows. -/
def builtinTypes : List (String × DataType) :=
  [("bool", .bool), ("u8", .byte), ("i32", .int), ("f32", .float), ("i64", .long),
    ("f64", .double), ("str", .string), ("text", .string), ("json", .json),
    ("bool[]", .boolList), ("u8[]", .byteList), ("i32[]", .intList), ("f32[]", .floatList),
    ("i64[]", .longList), ("f64[]", .doubleList), ("str[]", .stringList)]

/-- The name is a built-in one, in any case. -/
def IsBuiltin (name : List Char) : Prop :=
  String.ofList (toAsciiLowercase name) ∈ builtinTypes.map Prod.fst

/-- The declared type without `_TEXT`. -/
def cleanType (sqliteType : List Char) : List Char :=
  if "_text".toList.isSuffixOf (toAsciiLowercase sqliteType) then
    sqliteType.take (sqliteType.length - 5)
  else sqliteType

/-- The target of a property can be told from a built-in type. -/
def TargetKept (p : PropertySchema) : Prop :=
  ∀ target, p.collection = some target →
    match p.dataType with
    | .object => ¬ IsBuiltin target.toList ∧ ¬ "[]".toList <:+ target.toList
    | .objectList => ¬ IsBuiltin (target ++ "[]").toList
    | _ => True

/-- A declared type is decoded to the property. -/
def DecodesTo (p : PropertySchema) (decoded : DataType × Option String) : Prop :=
  decoded.1 = p.dataType ∧
    (p.dataType = .object ∨ p.dataType = .objectList → decoded.2 = p.collection)

/-! ## Decoding -/

theorem sqlDataType_eq (sqliteType : String) :
    sqlDataType sqliteType =
      match builtinTypes.lookup (String.ofList (toAsciiLowercase (cleanType sqliteType.toList))) with
      | some t => (t, none)
      | none =>
        if "[]".toList.isSuffixOf (cleanType sqliteType.toList) then
          (.objectList, some (String.ofList ((cleanType sqliteType.toList).take
            ((cleanType sqliteType.toList).length - 2))))
        else (.object, some (String.ofList (cleanType sqliteType.toList))) := by
  generalize eq : cleanType sqliteType.toList = clean
  unfold cleanType at eq
  unfold sqlDataType
  simp only [eq]
  split
  case h_17 other =>
    have unknown : builtinTypes.lookup (String.ofList (toAsciiLowercase clean)) = none := by
      simp_all [builtinTypes, List.lookup_eq_none_iff]
    rw [unknown]
  all_goals
    rename_i name
    rw [name]
    rfl

/-- `_TEXT` is taken off a declared type. -/
theorem cleanType_append_text (name : String) :
    cleanType (name ++ "_TEXT").toList = name.toList := by
  have lower : toAsciiLowercase (name ++ "_TEXT").toList =
      toAsciiLowercase name.toList ++ "_text".toList := by
    rw [String.toList_append]
    unfold toAsciiLowercase
    rw [List.map_append]
    rfl
  have suffix : "_text".toList.isSuffixOf (toAsciiLowercase (name ++ "_TEXT").toList) = true := by
    rw [List.isSuffixOf_iff_suffix, lower]
    exact List.suffix_append _ _
  have length : (name ++ "_TEXT").toList.length - 5 = name.toList.length := by
    rw [String.toList_append, List.length_append]
    rfl
  unfold cleanType
  rw [if_pos suffix, length, String.toList_append, List.take_left]

theorem lookup_eq_none {name : List Char} :
    builtinTypes.lookup (String.ofList (toAsciiLowercase name)) = none ↔ ¬ IsBuiltin name := by
  unfold IsBuiltin
  rw [List.lookup_eq_none_iff, List.mem_map]
  constructor
  · intro none_ ⟨entry, mem, eq⟩
    have := none_ entry mem
    simp [eq] at this
  · intro unknown entry mem
    exact bne_iff_ne.mpr fun eq => unknown ⟨entry, mem, eq.symm⟩

/-- No built-in type is one of objects. -/
theorem scalar_of_lookup {name : String} {t : DataType} (h : builtinTypes.lookup name = some t) :
    t ≠ .object ∧ t ≠ .objectList := by
  obtain ⟨front, back, eq, -⟩ := List.lookup_eq_some_iff.mp h
  have mem : (name, t) ∈ builtinTypes := by
    rw [eq]
    simp
  have all : ∀ entry ∈ builtinTypes, entry.2 ≠ .object ∧ entry.2 ≠ .objectList := by decide
  exact all _ mem

theorem decodes_object {target : String} :
    sqlDataType (target ++ "_TEXT") = (.object, some target) ↔
      ¬ IsBuiltin target.toList ∧ ¬ "[]".toList <:+ target.toList := by
  rw [sqlDataType_eq, cleanType_append_text, ← lookup_eq_none, ← List.isSuffixOf_iff_suffix]
  cases known : builtinTypes.lookup (String.ofList (toAsciiLowercase target.toList)) with
  | some t =>
    refine iff_of_false (fun eq => ?_) fun h => nomatch h.1
    exact (scalar_of_lookup known).1 (congrArg Prod.fst eq)
  | none =>
    by_cases list : "[]".toList.isSuffixOf target.toList = true
    · refine iff_of_false (fun eq => ?_) fun h => h.2 list
      simp only [list, if_true] at eq
      cases congrArg Prod.fst eq
    · refine iff_of_true ?_ ⟨rfl, list⟩
      simp only [list, if_false, String.ofList_toList, Bool.false_eq_true]

theorem decodes_objectList {target : String} :
    sqlDataType (target ++ "[]_TEXT") = (.objectList, some target) ↔
      ¬ IsBuiltin (target ++ "[]").toList := by
  have declared : target ++ "[]_TEXT" = target ++ "[]" ++ "_TEXT" := by
    rw [String.append_assoc]
    rfl
  have suffix : "[]".toList.isSuffixOf (target ++ "[]").toList = true := by
    rw [List.isSuffixOf_iff_suffix, String.toList_append]
    exact List.suffix_append _ _
  have length : (target ++ "[]").toList.length - 2 = target.toList.length := by
    rw [String.toList_append, List.length_append]
    rfl
  rw [declared, sqlDataType_eq, cleanType_append_text, ← lookup_eq_none]
  cases known : builtinTypes.lookup (String.ofList (toAsciiLowercase (target ++ "[]").toList)) with
  | some t =>
    refine iff_of_false (fun eq => ?_) nofun
    exact (scalar_of_lookup known).2 (congrArg Prod.fst eq)
  | none =>
    refine iff_of_true ?_ rfl
    simp only [suffix, if_true, length]
    rw [String.toList_append, List.take_left, String.ofList_toList]

/-! ## Properties -/

/-- A declared type is decoded to the property that it was declared for just when the name of the
target is no built-in one and does not look like one of a list. -/
theorem column_type_exact {collections : List IsarSchema} {p : PropertySchema}
    (accepted : verifyTarget collections p = .ok ()) :
    ∃ sqlType, dataTypeSql p = some sqlType ∧
      (DecodesTo p (sqlDataType sqlType) ↔ TargetKept p) := by
  by_cases object : p.dataType = .object ∨ p.dataType = .objectList
  · obtain ⟨target, named⟩ : ∃ target, p.collection = some target := by
      unfold verifyTarget at accepted
      rw [if_pos object] at accepted
      cases found : p.collection with
      | none =>
        rw [found] at accepted
        exact absurd accepted schemaError_ne_ok
      | some target => exact ⟨target, rfl⟩
    have kept : TargetKept p ↔ match p.dataType with
        | .object => ¬ IsBuiltin target.toList ∧ ¬ "[]".toList <:+ target.toList
        | .objectList => ¬ IsBuiltin (target ++ "[]").toList
        | _ => True := by
      unfold TargetKept
      rw [named]
      exact ⟨fun h => h target rfl, fun h other eq => Option.some.inj eq ▸ h⟩
    have pair (decoded : DataType × Option String) :
        DecodesTo p decoded ↔ decoded = (p.dataType, some target) := by
      unfold DecodesTo
      rw [imp_iff_right object, named, Prod.ext_iff]
    rcases object with type | type <;> rw [type] at kept pair
    · refine ⟨target ++ "_TEXT", by rw [dataTypeSql, type, named]; rfl, ?_⟩
      rw [pair, kept]
      exact decodes_object
    · refine ⟨target ++ "[]_TEXT", by rw [dataTypeSql, type, named]; rfl, ?_⟩
      rw [pair, kept]
      exact decodes_objectList
  · obtain ⟨scalar, scalarList⟩ := not_or.mp object
    obtain ⟨sqlType, declared⟩ : ∃ sqlType, dataTypeSql p = some sqlType := by
      unfold dataTypeSql
      cases type : p.dataType <;> first | exact ⟨_, rfl⟩ | contradiction
    refine ⟨sqlType, declared, iff_of_true ?_ fun target _ => ?_⟩
    · rw [sqlDataType_dataTypeSql scalar scalarList declared]
      exact ⟨rfl, fun h => absurd h object⟩
    · cases type : p.dataType <;> trivial

/-! ### A collection of the name `Json` -/

def objectOf (target : String) : PropertySchema := ⟨some "value", .object, some target⟩

/-- An embedded collection, and one whose property is an object of it. -/
def schemasWith (target : String) : List IsarSchema :=
  [{ name := target, idName := none, embedded := true
     properties := [⟨some "text", .string, none⟩], indexes := [], version := 2 },
    { name := "Note", idName := some "id", embedded := false
      properties := [objectOf target], indexes := [], version := 2 }]

/-- An object of the collection `Json` is decoded as JSON. -/
theorem json_object_misread :
    verifySchemas (schemasWith "Json") = .ok () ∧ dataTypeSql (objectOf "Json") = some "Json_TEXT" ∧
      ¬ DecodesTo (objectOf "Json") (sqlDataType "Json_TEXT") := by
  refine ⟨rfl, rfl, fun h => ?_⟩
  exact absurd h.1 (by decide)

theorem column_type_of_address :
    ∃ sqlType, dataTypeSql (objectOf "Address") = some sqlType ∧
      (DecodesTo (objectOf "Address") (sqlDataType sqlType) ↔ TargetKept (objectOf "Address")) :=
  @column_type_exact (schemasWith "Address") (objectOf "Address") rfl

end IsarPlus.Sqlite
