import IsarPlus.Sqlite.Proofs.Conditions

/-!
# Places in a row

A filter is translated relative to a place: the row itself, or the object that a path selects in one
of its JSON columns, or no object because a nested object on the path is null.
-/

namespace IsarPlus.Sqlite
open Scalar Sql

/-! ## Places -/

/-- The object that a part of a filter is about. -/
inductive Place where
  | row (id : Int64) (fields : List Datum)
  | object (fields : List Datum)
  | absent

def Place.ofDatum : Datum → Place
  | .object (some fields) => .object fields
  | _ => .absent

/-- The place of a nested object. -/
def Place.inner (propertyIndex : UInt16) : Place → Place
  | .row id fields => .ofDatum (propertyValue (.integer id) fields propertyIndex)
  | .object fields => .ofDatum (propertyValue .null fields propertyIndex)
  | .absent => .absent

section
variable (all : List SQLiteCollection)

mutual

/-- The value of a filter none of whose conditions is met: what its translation comes to where a
nested object is null. -/
def bare (c : SQLiteCollection) : Filter → Bool
  | .condition _ | .json _ => false
  | .nested propertyIndex filter =>
    match c.getProperty propertyIndex with
    | some p =>
      if p.dataType = .object then
        match p.collectionIndex.bind fun index => all[index.toNat]? with
        | some embedded => bare embedded filter
        | none => false
      else false
    | none => false
  | .and filters => bareAll c filters
  | .or filters => bareSome c filters
  | .not filter => !bare c filter

def bareAll (c : SQLiteCollection) : List Filter → Bool
  | [] => true
  | filter :: filters => bare c filter && bareAll c filters

def bareSome (c : SQLiteCollection) : List Filter → Bool
  | [] => false
  | filter :: filters => bare c filter || bareSome c filters

end

variable (toLowercase : List Char → List Char)

/-- What the translation of a filter is to come to at a place. -/
def Place.value (c : SQLiteCollection) (filter : Filter) : Place → Bool
  | .row id fields => filter.holds toLowercase (.integer id) fields
  | .object fields => filter.holds toLowercase .null fields
  | .absent => bare all c filter

end

/-! ## Places in a row -/

section
variable (platform : Platform) (all : List SQLiteCollection) (row : String → Value)

/-- The object of a place is stored in the row, under the path. -/
inductive Located (c : SQLiteCollection) : List String → Place → Prop
  | row {id : Int64} {fields : List Datum} : row "_rowid_" = .integer id →
      fields.length = c.properties.length →
      (∀ (i : Nat) p d, c.properties[i]? = some p → fields[i]? = some d →
        ColumnHolds platform all p d (row p.name)) →
      Located c [] (.row id fields)
  | object {first : String} {path : List String} {fields : List Datum}
      {map : List (String × Json)} :
      extractValue (platform.columnJson (row first)) path = some (.object map) →
      fields.length = c.properties.length →
      (∀ (i : Nat) p d, c.properties[i]? = some p → fields[i]? = some d →
        JsonHolds all p d ((map.lookup p.name).getD .null)) →
      Located c (first :: path) (.object fields)
  | absent {first : String} {path : List String} :
      (∀ key keys,
        extractValue (platform.columnJson (row first)) (path ++ key :: keys) = none) →
      Located c (first :: path) .absent

end

theorem extractValue_append (j : Json) (path keys : List String) :
    extractValue j (path ++ keys) = (extractValue j path).bind (extractValue · keys) := by
  induction path generalizing j with
  | nil => rfl
  | cons key path ih =>
    cases j with
    | object map => exact ih _
    | array values =>
      simp only [List.cons_append, extractValue, Option.bind_eq_bind, Option.bind_assoc, ih]
    | _ => rfl

/-- The property and the value that an index selects. -/
theorem propertyValue_cases {c : SQLiteCollection} {fields : List Datum}
    (length : fields.length = c.properties.length) (id : Datum) (propertyIndex : UInt16) :
    (c.getProperty propertyIndex = none ∧ propertyValue id fields propertyIndex = id) ∨
    ∃ (i : Nat) (p : SQLiteProperty) (d : Datum), c.getProperty propertyIndex = some p ∧
      propertyValue id fields propertyIndex = d ∧ c.properties[i]? = some p ∧
      fields[i]? = some d := by
  unfold SQLiteCollection.getProperty propertyValue
  by_cases zero : propertyIndex = 0
  · simp [zero]
  · rw [if_pos zero, if_pos zero]
    cases property : c.properties[propertyIndex.toNat - 1]? with
    | none =>
      have : fields[propertyIndex.toNat - 1]? = none := by
        rw [List.getElem?_eq_none_iff] at property ⊢
        omega
      exact Or.inl ⟨rfl, by rw [this]; rfl⟩
    | some p =>
      obtain ⟨d, value⟩ : ∃ d, fields[propertyIndex.toNat - 1]? = some d := by
        obtain ⟨bound, -⟩ := List.getElem?_eq_some_iff.mp property
        exact ⟨_, List.getElem?_eq_getElem (by omega)⟩
      exact Or.inr ⟨_, p, d, rfl, by rw [value]; rfl, property, value⟩

section
variable {platform : Platform} {all : List SQLiteCollection} {row : String → Value}
  {c : SQLiteCollection} {path : List String} {place : Place}

/-- A nested object is where the path to its JSON value leads. -/
theorem JsonHolds.located {p : SQLiteProperty} {index : UInt16} {embedded : SQLiteCollection}
    {d : Datum} {j : Json} {first : String} {path : List String} (h : JsonHolds all p d j)
    (type : p.dataType = .object) (hindex : p.collectionIndex = some index)
    (hembedded : all[index.toNat]? = some embedded)
    (selected : extractValue (platform.columnJson (row first)) path = some j) :
    Located platform all row embedded (first :: path) (.ofDatum d) := by
  have beyond (json : Json) (isNull : j = json)
      (none' : ∀ key keys, extractValue json (key :: keys) = none) :
      ∀ key keys, extractValue (platform.columnJson (row first)) (path ++ key :: keys) = none := by
    intro key keys
    rw [extractValue_append, selected, Option.bind_some, isNull, none']
  cases h with
  | nullObject => exact .absent (beyond .null rfl fun _ _ => rfl)
  | object _ hindex' hembedded' length json =>
    obtain rfl := Option.some.inj (hindex.symm.trans hindex')
    obtain rfl := Option.some.inj (hembedded.symm.trans hembedded')
    exact .object selected length json
  | null _ notObject => exact absurd type notObject
  | bool type' | byteList type' => simp [type] at type'
  | integer type' | real type' | string type' => simp [type] at type'
  | nullList type' => simp [type, DataType.isList, DataType.elementType] at type'
  | list type' => simp [type, DataType.elementType] at type'

/-- The place of a nested object is where its path leads. -/
theorem Located.inner (laws : platform.Laws) (located : Located platform all row c path place)
    {propertyIndex : UInt16} {p : SQLiteProperty} {index : UInt16} {embedded : SQLiteCollection}
    (property : c.getProperty propertyIndex = some p) (type : p.dataType = .object)
    (hindex : p.collectionIndex = some index) (hembedded : all[index.toNat]? = some embedded) :
    Located platform all row embedded (path ++ [p.name]) (place.inner propertyIndex) := by
  cases located with
  | @row id fields _ length column =>
    rcases propertyValue_cases length (.integer id) propertyIndex with
      ⟨none', -⟩ | ⟨i, p', d, property', value, stored, stored'⟩
    · rw [property] at none'
      cases none'
    · obtain rfl := Option.some.inj (property.symm.trans property')
      have json := (column i p d stored stored').columnJson laws (Or.inr type) (by simp [type])
      simp only [Place.inner, value, List.nil_append]
      exact json.located type hindex hembedded rfl
  | @object first rest fields map found length json =>
    rcases propertyValue_cases length .null propertyIndex with
      ⟨none', -⟩ | ⟨i, p', d, property', value, stored, stored'⟩
    · rw [property] at none'
      cases none'
    · obtain rfl := Option.some.inj (property.symm.trans property')
      simp only [Place.inner, value]
      refine (json i p d stored stored').located type hindex hembedded ?_
      show extractValue _ (rest ++ [p.name]) = _
      rw [extractValue_append, found]
      rfl
  | @absent first rest missing =>
    refine .absent fun key keys => ?_
    have beyond := missing p.name (key :: keys)
    rwa [List.append_cons] at beyond

/-- What the filters of a group come to, one by one. -/
theorem Place.value_and (toLowercase : List Char → List Char) (filters : List Filter) :
    place.value all toLowercase c (.and filters) =
      (filters.map fun filter => place.value all toLowercase c filter).all id := by
  induction filters with
  | nil => cases place <;> rfl
  | cons filter filters ih =>
    rw [List.map_cons, List.all_cons, ← ih]
    cases place <;> rfl

theorem Place.value_or (toLowercase : List Char → List Char) (filters : List Filter) :
    place.value all toLowercase c (.or filters) =
      (filters.map fun filter => place.value all toLowercase c filter).any id := by
  induction filters with
  | nil => cases place <;> rfl
  | cons filter filters ih =>
    rw [List.map_cons, List.any_cons, ← ih]
    cases place <;> rfl

theorem Place.value_not (toLowercase : List Char → List Char) (filter : Filter) :
    place.value all toLowercase c (.not filter) = !place.value all toLowercase c filter := by
  cases place <;> rfl

theorem holds_nested_absent {id d : Datum} {fields : List Datum} {propertyIndex : UInt16}
    (value : propertyValue id fields propertyIndex = d) (absent : Place.ofDatum d = .absent)
    (fold : List Char → List Char) (filter : Filter) :
    (Filter.nested propertyIndex filter).holds fold id fields = false := by
  rw [Filter.holds, value]
  cases d with
  | object fields =>
    cases fields with
    | none => rfl
    | some fields => cases absent
  | _ => rfl

/-- A filter on a property that holds no object is false. -/
theorem Place.value_nested_of_not_object (located : Located platform all row c path place)
    {propertyIndex : UInt16}
    (h : ∀ p, c.getProperty propertyIndex = some p → p.dataType ≠ .object)
    (toLowercase : List Char → List Char) (filter : Filter) :
    place.value all toLowercase c (.nested propertyIndex filter) = false := by
  cases located with
  | @row id fields _ length column =>
    rcases propertyValue_cases length (.integer id) propertyIndex with
      ⟨-, value⟩ | ⟨i, p, d, property, value, stored, stored'⟩
    · exact holds_nested_absent value rfl _ _
    · refine holds_nested_absent value ?_ _ _
      have type := h p property
      have holds := column i p d stored stored'
      generalize row p.name = v at holds
      cases holds with
      | json _ _ holds =>
        cases holds with
        | object type' => exact absurd type' type
        | _ => rfl
      | _ => rfl
  | @object first rest fields map _ length json =>
    rcases propertyValue_cases length .null propertyIndex with
      ⟨-, value⟩ | ⟨i, p, d, property, value, stored, stored'⟩
    · exact holds_nested_absent value rfl _ _
    · refine holds_nested_absent value ?_ _ _
      have type := h p property
      have holds := json i p d stored stored'
      generalize (map.lookup p.name).getD .null = j at holds
      cases holds with
      | object type' => exact absurd type' type
      | _ => rfl
  | absent =>
    simp only [Place.value, bare]
    split
    · rename_i p property
      rw [if_neg (h p property)]
    · rfl

/-- A filter on a property that holds an object is the filter at the place of that object. -/
theorem Place.value_nested {propertyIndex : UInt16} {p : SQLiteProperty} {index : UInt16}
    {embedded : SQLiteCollection} {filter : Filter} {toLowercase : List Char → List Char}
    (property : c.getProperty propertyIndex = some p) (type : p.dataType = .object)
    (hindex : p.collectionIndex = some index) (hembedded : all[index.toNat]? = some embedded)
    (absent : place.inner propertyIndex = .absent → place ≠ .absent →
      bare all embedded filter = false) :
    place.value all toLowercase c (.nested propertyIndex filter) =
      (place.inner propertyIndex).value all toLowercase embedded filter := by
  have ofDatum (d : Datum) :
      (Place.ofDatum d = .absent → bare all embedded filter = false) →
      (match d with
        | .object (some inner) => filter.holds toLowercase .null inner
        | _ => false) = (Place.ofDatum d).value all toLowercase embedded filter := by
    intro absent
    cases d with
    | object fields =>
      cases fields with
      | none => exact (absent rfl).symm
      | some fields => rfl
    | _ => exact (absent rfl).symm
  cases place with
  | row id fields =>
    rw [Place.value, Filter.holds]
    exact ofDatum _ fun inner => absent inner nofun
  | object fields =>
    rw [Place.value, Filter.holds]
    exact ofDatum _ fun inner => absent inner nofun
  | absent => simp [Place.value, Place.inner, bare, property, type, hindex, hembedded]

end

end IsarPlus.Sqlite
