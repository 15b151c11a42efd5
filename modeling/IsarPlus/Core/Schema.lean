import IsarPlus.Core.Data
import IsarPlus.Core.Error
import Mathlib.Data.List.Nodup

/-!
# Schemas

`isar_core/src/core/schema.rs`: what a collection is to look like, how it is verified, and in what
it differs from what an earlier opening has left.
-/

namespace IsarPlus

/-- `PropertySchema` (`core/schema.rs:227-235`). A property without a name is one that was dropped,
whose place in the objects is still taken. -/
structure PropertySchema where
  name : Option String
  dataType : DataType
  collection : Option String
  deriving DecidableEq, Repr

/-- `IndexSchema` (`core/schema.rs:247-253`). -/
structure IndexSchema where
  name : String
  properties : List String
  unique : Bool
  hash : Bool
  deriving DecidableEq, Repr

/-- `IsarSchema` (`core/schema.rs:6-19`). -/
structure IsarSchema where
  name : String
  idName : Option String
  embedded : Bool
  properties : List PropertySchema
  indexes : List IndexSchema
  version : UInt8
  deriving DecidableEq, Repr

/-- What `find_changes` returns. -/
structure Changes where
  addProperties : List PropertySchema
  dropProperties : List String
  addIndexes : List IndexSchema
  dropIndexes : List String
  deriving DecidableEq, Repr

namespace IsarSchema

def property (schema : IsarSchema) (name : String) : Option PropertySchema :=
  schema.properties.find? fun p => p.name == some name

def index (schema : IsarSchema) (name : String) : Option IndexSchema :=
  schema.indexes.find? fun index => index.name == name

/-! ## Changes -/

/-- The name under which an old property is dropped, with the property that takes its place, if it
does not stay as it is. -/
def changedProperty (schema : IsarSchema) (old : PropertySchema) :
    Option (String × Option PropertySchema) :=
  match old.name with
  | none => none
  | some name =>
    match schema.property name with
    | some p =>
      if p.dataType ≠ old.dataType ∨ p.collection ≠ old.collection then some (name, some p)
      else none
    | none => some (name, none)

/-- The same for an old index. -/
def changedIndex (schema : IsarSchema) (dropProperties : List String) (old : IndexSchema) :
    Option (String × Option IndexSchema) :=
  match schema.index old.name with
  | some index =>
    if index.unique ≠ old.unique ∨ index.properties ≠ old.properties ∨ index.hash ≠ old.hash ∨
        ∃ p ∈ index.properties, p ∈ dropProperties then some (old.name, some index)
    else none
  | none => some (old.name, none)

/-- `find_changes` (`core/schema.rs:53-126`). -/
def findChanges (schema old : IsarSchema) : Changes :=
  let properties := old.properties.filterMap schema.changedProperty
  let newProperties := schema.properties.filter fun p =>
    p.name.isSome && !old.properties.any fun q => q.name == p.name
  let dropProperties := properties.map Prod.fst
  let indexes := old.indexes.filterMap (schema.changedIndex dropProperties)
  let newIndexes := schema.indexes.filter fun index =>
    !old.indexes.any fun oldIndex => index.name == oldIndex.name
  { addProperties := properties.filterMap Prod.snd ++ newProperties
    dropProperties
    addIndexes := indexes.filterMap Prod.snd ++ newIndexes
    dropIndexes := indexes.map Prod.fst }

/-! ## Verification -/

def schemaError {α : Type} (message : String) : Result α := fail (.schemaError message)

/-- `verify_name` (`core/schema.rs:215-225`). -/
def verifyName (name : String) : Result Unit :=
  if name.toList = [] then schemaError "Empty names are not allowed."
  else if name.toList.head? = some '_' then
    schemaError "Names must not begin with an underscore."
  else if "sqlite_".toList.isPrefixOf name.toList then
    schemaError "Names must not begin with 'sqlite_'."
  else pure ()

/-- The checks on the target of a property (`core/schema.rs:139-156`). -/
def verifyTarget (collections : List IsarSchema) (p : PropertySchema) : Result Unit :=
  if p.dataType = .object ∨ p.dataType = .objectList then
    match p.collection with
    | some target =>
      if collections.any fun c => c.name == target && c.embedded then pure ()
      else schemaError "Target collection does not exist."
    | none => schemaError "Object property must have a target collection."
  else if p.collection.isSome then
    schemaError "Target collection can only be set for object properties."
  else pure ()

/-- The checks on one property (`core/schema.rs:135-157`). -/
def verifyProperty (collections : List IsarSchema) (p : PropertySchema) : Result Unit := do
  p.name.forM verifyName
  verifyTarget collections p

/-- The checks on one property of an index (`core/schema.rs:176-205`). -/
def verifyIndexProperty (schema : IsarSchema) (index : IndexSchema) (name : String) :
    Result Unit :=
  match schema.property name with
  | none => schemaError "Index property does not exist"
  | some p =>
    if p.dataType = .float ∨ p.dataType = .double then
      schemaError "Float properties cannot be indexed."
    else if p.dataType = .object then schemaError "Object properties cannot be indexed."
    else if p.dataType = .json then schemaError "JSON properties cannot be indexed."
    else if p.dataType.isList then schemaError "List properties cannot be indexed."
    else if p.dataType = .string ∧ index.hash = false ∧ index.properties.getLast? ≠ some name then
      schemaError "Only the last property of a non-hashed index can be a String."
    else pure ()

def verifyIndex (schema : IsarSchema) (index : IndexSchema) : Result Unit :=
  if index.properties.isEmpty then
    schemaError "At least one property needs to be added to a valid index"
  else index.properties.forM (schema.verifyIndexProperty index)

/-- A check of `verify` that complains if `P` holds. -/
def refuse (P : Prop) [Decidable P] (message : String) : Result Unit :=
  if P then schemaError message else pure ()

/-- `verify` (`core/schema.rs:128-207`). -/
def verify (schema : IsarSchema) (collections : List IsarSchema) : Result Unit := do
  verifyName schema.name
  refuse (schema.embedded ∧ schema.indexes ≠ []) "Embedded objects must not have indexes."
  schema.properties.forM (verifyProperty collections)
  refuse (¬ (schema.properties.map PropertySchema.name).Nodup) "Duplicate property name"
  refuse (¬ (schema.indexes.map IndexSchema.name).Nodup) "Duplicate index name"
  schema.indexes.forM schema.verifyIndex

/-- `verify_schemas` (`core/schema.rs:46-51`). -/
def verifySchemas (schemas : List IsarSchema) : Result Unit :=
  schemas.forM fun schema => schema.verify schemas

/-! ### What verified schemas satisfy -/

theorem forM_eq_ok {α : Type} {l : List α} {f : α → Result Unit} (h : l.forM f = .ok ()) :
    ∀ a ∈ l, f a = .ok () := by
  induction l with
  | nil => simp
  | cons head l ih =>
    obtain ⟨⟨⟩, first, rest⟩ := bind_eq_ok.mp h
    intro a mem
    rcases List.mem_cons.mp mem with rfl | mem
    · exact first
    · exact ih rest a mem

theorem schemaError_ne_ok {α : Type} {message : String} {a : α} :
    (schemaError message : Result α) ≠ .ok a := fail_ne_ok

/-- A check that passes has found nothing to complain of. -/
theorem check_eq_ok {P : Prop} [Decidable P] {message : String} {rest : Result Unit}
    (h : (if P then schemaError message else rest) = .ok ()) : ¬ P ∧ rest = .ok () := by
  by_cases p : P
  · rw [if_pos p] at h
    exact absurd h schemaError_ne_ok
  · rw [if_neg p] at h
    exact ⟨p, h⟩

/-- What later steps rely on in a verified schema. -/
structure Verified (schema : IsarSchema) : Prop where
  name : ∀ p ∈ schema.properties, ∀ name, p.name = some name → name.toList.head? ≠ some '_'
  target : ∀ p ∈ schema.properties, p.dataType ≠ .object → p.dataType ≠ .objectList →
    p.collection = none
  properties : (schema.properties.map PropertySchema.name).Nodup
  indexes : (schema.indexes.map IndexSchema.name).Nodup

theorem head?_of_verifyName {name : String} (h : verifyName name = .ok ()) :
    name.toList.head? ≠ some '_' :=
  (check_eq_ok (check_eq_ok h).2).1

theorem of_refuse {P : Prop} [Decidable P] {message : String} {u : Unit}
    (h : refuse P message = .ok u) : ¬ P := (check_eq_ok h).1

theorem verified_of_verify {schema : IsarSchema} {collections : List IsarSchema}
    (h : schema.verify collections = .ok ()) : schema.Verified := by
  obtain ⟨_, -, h⟩ := bind_eq_ok.mp h
  obtain ⟨_, -, h⟩ := bind_eq_ok.mp h
  obtain ⟨_, properties, h⟩ := bind_eq_ok.mp h
  obtain ⟨_, propertyNames, h⟩ := bind_eq_ok.mp h
  obtain ⟨_, indexNames, -⟩ := bind_eq_ok.mp h
  have each (p : PropertySchema) (mem : p ∈ schema.properties) :
      p.name.forM verifyName = .ok () ∧ verifyTarget collections p = .ok () := by
    obtain ⟨_, name, target⟩ := bind_eq_ok.mp (forM_eq_ok properties p mem)
    exact ⟨name, target⟩
  refine ⟨fun p mem name eq => ?_, fun p mem scalar scalarList => ?_,
    not_not.mp (of_refuse propertyNames), not_not.mp (of_refuse indexNames)⟩
  · have name := (each p mem).1
    rw [eq] at name
    exact head?_of_verifyName name
  · have target := (each p mem).2
    rw [verifyTarget, if_neg (by simp [scalar, scalarList])] at target
    simpa using (check_eq_ok target).1

/-- The target of a verified property is among the collections. -/
theorem target_of_verifySchemas {schemas : List IsarSchema} (h : verifySchemas schemas = .ok ())
    {schema : IsarSchema} (mem : schema ∈ schemas) {p : PropertySchema}
    (memP : p ∈ schema.properties) {target : String} (points : p.collection = some target) :
    ∃ c ∈ schemas, c.name = target := by
  obtain ⟨_, -, verify⟩ := bind_eq_ok.mp (forM_eq_ok h schema mem)
  obtain ⟨_, -, verify⟩ := bind_eq_ok.mp verify
  obtain ⟨_, properties, -⟩ := bind_eq_ok.mp verify
  obtain ⟨_, -, checked⟩ := bind_eq_ok.mp (forM_eq_ok properties p memP)
  unfold verifyTarget at checked
  split at checked
  · rw [points] at checked
    simp only at checked
    split at checked
    · rename_i found
      obtain ⟨c, listed, both⟩ := List.any_eq_true.mp found
      exact ⟨c, listed, beq_iff_eq.mp (Bool.and_eq_true_iff.mp both).1⟩
    · exact absurd checked schemaError_ne_ok
  · rw [points] at checked
    exact absurd checked schemaError_ne_ok

theorem verified_of_verifySchemas {schemas : List IsarSchema}
    (h : verifySchemas schemas = .ok ()) : ∀ schema ∈ schemas, schema.Verified :=
  fun schema mem => verified_of_verify (forM_eq_ok h schema mem)

end IsarSchema

end IsarPlus
