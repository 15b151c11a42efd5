import IsarPlus.Lib.Firsts
import IsarPlus.Native.Proofs.SortedQueries

/-!
# Distinct native queries

The hash of an object chains what each distinct property adds to it. Lists and json add nothing, and
the two zeros add different bytes.
-/

namespace IsarPlus.Native
open ByteBuffer Scalar Iteration SortKeys Firsts

/-- A distinct property, with whether the case of strings matters. -/
abbrev DistinctKey := NativeProperty × Bool

namespace DistinctKey

/-- The property as a key of a sort. -/
def sortKey (key : DistinctKey) : SortKey := (some key.1, .asc, key.2)

variable (toLowercase : List Char → List Char)

/-- The elements of a list, or the text of a json property. -/
def readElements (key : DistinctKey) (o : QueryObject) : Option (Option (List SortValue)) :=
  match key.1.dataType.elementType with
  | some element => do
    match ← o.2.readList key.1.offset element with
    | some (nested, length) =>
      let elements ← (List.range length).mapM fun i =>
        SortKey.read toLowercase (some ⟨element, i * element.staticSize, none⟩, .asc, true)
          (o.1, nested)
      pure (some elements)
    | none => pure none
  | none =>
    if key.1.dataType = .json then
      (o.2.readStr key.1.offset).map (Option.map fun s => [SortValue.text s])
    else some none

/-- The value of an object under the property: a scalar, or the elements of a list. -/
def value (key : DistinctKey) (o : QueryObject) : SortValue × Option (List SortValue) :=
  (key.sortKey.value toLowercase o, (key.readElements toLowercase o).getD none)

/-- What the hash makes of the property: null, or the bits of a scalar. -/
def alike (key : DistinctKey) (o : QueryObject) : SortValue :=
  if key.sortKey.value toLowercase o = ⊥ then ⊥ else key.sortKey.compared toLowercase o

end DistinctKey

/-- The values of an object under all distinct properties. -/
def distinctValues (toLowercase : List Char → List Char) (distinct : List DistinctKey)
    (o : QueryObject) : List (SortValue × Option (List SortValue)) :=
  distinct.map fun key => key.value toLowercase o

/-- What the hash makes of an object. -/
def alikeValues (toLowercase : List Char → List Char) (distinct : List DistinctKey)
    (o : QueryObject) : List SortValue :=
  distinct.map fun key => key.alike toLowercase o

/-! ## Hashed bytes -/

/-- The byte sequences that `hash_property` feeds to the hash, one after the other. -/
def IsarDeserializer.hashedBytes (toLowercase : List Char → List Char) (object : IsarDeserializer)
    (p : NativeProperty) (caseSensitive : Bool) : Option (List Bytes) :=
  match p.dataType with
  | .bool => (object.readBool p.offset).map fun v =>
      match v with
      | some value => [[if value then 1 else 0]]
      | none => [[255]]
  | .byte => (object.readByte p.offset).map fun v => [[v]]
  | .int => (object.readInt p.offset).map fun v => [i32Le v]
  | .float => (object.readFloat p.offset).map fun v =>
      if v.isNan then [[1, 0, 128, 127]] else [f32Le v]
  | .long => (object.readLong p.offset).map fun v => [i64Le v]
  | .double => (object.readDouble p.offset).map fun v =>
      if v.isNan then [[0, 0, 0, 0, 0, 0, 248, 127]] else [f64Le v]
  | .string => do
    match ← object.readString p.offset with
    | some bytes => (comparedBytes toLowercase bytes caseSensitive).map fun bytes => [[1], bytes]
    | none => pure [[0]]
  | _ => some []

section
variable {toLowercase : List Char → List Char} {xxh3_64_with_seed : Bytes → UInt64 → UInt64}

theorem hashProperty_eq (object : IsarDeserializer) (p : NativeProperty) (caseSensitive : Bool)
    (seed : UInt64) :
    object.hashProperty toLowercase xxh3_64_with_seed p caseSensitive seed =
      (object.hashedBytes toLowercase p caseSensitive).map
        (·.foldl (fun seed bytes => xxh3_64_with_seed bytes seed) seed) := by
  unfold IsarDeserializer.hashProperty IsarDeserializer.hashedBytes
  cases p.dataType
  case bool => cases object.readBool p.offset with
    | none => rfl
    | some v =>
      cases v with
      | none => rfl
      | some value => cases value <;> rfl
  case float => cases object.readFloat p.offset with
    | none => rfl
    | some v => simp only [Option.map_some]; split <;> rfl
  case double => cases object.readDouble p.offset with
    | none => rfl
    | some v => simp only [Option.map_some]; split <;> rfl
  case byte => cases object.readByte p.offset <;> rfl
  case int => cases object.readInt p.offset <;> rfl
  case long => cases object.readLong p.offset <;> rfl
  case string => cases object.readString p.offset with
    | none => rfl
    | some v =>
      cases v with
      | none => rfl
      | some bytes =>
        show (comparedBytes toLowercase bytes caseSensitive).bind (fun bytes =>
            some (xxh3_64_with_seed bytes (xxh3_64_with_seed [1] seed))) =
          ((comparedBytes toLowercase bytes caseSensitive).map fun bytes => [[1], bytes]).map _
        cases comparedBytes toLowercase bytes caseSensitive <;> rfl
  all_goals rfl

/-! ## What the bytes tell apart -/

/-- The bytes tell apart what has different values, and the bytes that follow them do not matter. -/
structure Tells {α : Type} (bytes : α → List Bytes) (value : α → SortValue) : Prop where
  same : ∀ v w, bytes v = bytes w ↔ value v = value w
  apart : ∀ v w x y, bytes v ++ x = bytes w ++ y → bytes v = bytes w

theorem Tells.of_one {α : Type} {bytes : α → Bytes} {value : α → SortValue}
    (same : ∀ v w, bytes v = bytes w ↔ value v = value w) : Tells (fun v => [bytes v]) value where
  same v w := by rw [List.cons_eq_cons, and_iff_left rfl, same]
  apart v w x y eq := by
    rw [List.cons_append, List.cons_append, List.cons_eq_cons] at eq
    exact congrArg (fun b => [b]) eq.1

theorem tells_bool : Tells
    (fun v : Option Bool => match v with
      | some value => [[if value then 1 else 0]]
      | none => [[255]])
    fun v => v.elim ⊥ fun value => SortValue.number (if value then 1 else 0) where
  same v w := by
    rcases v with _ | _ | _ <;> rcases w with _ | _ | _ <;>
      simp [SortValue.number_ne_bot, (SortValue.number_ne_bot _).symm, SortValue.number_injective]
  apart v w x y eq := by
    rcases v with _ | _ | _ <;> rcases w with _ | _ | _ <;> simp at eq ⊢

theorem tells_byte : Tells (fun v : UInt8 => [[v]]) fun v => SortValue.number v.toNat :=
  Tells.of_one fun v w => by
    rw [SortValue.number_injective, List.cons_eq_cons, and_iff_left rfl, Nat.cast_inj,
      UInt8.toNat_inj]

/-- Integers of which one is null. -/
theorem tells_integer {α : Type} [DecidableEq α] {null : α} {toInt : α → Int} {bytes : α → Bytes}
    (toInt_injective : ∀ v w, toInt v = toInt w ↔ v = w)
    (bytes_injective : ∀ v w, bytes v = bytes w ↔ v = w) :
    Tells (fun v => [bytes v]) fun v => if v = null then ⊥ else SortValue.number (toInt v) :=
  Tells.of_one fun v w => by
    rw [bytes_injective]
    by_cases nullV : v = null
    · by_cases nullW : w = null
      · simp [nullV, nullW]
      · simp only [if_pos nullV, if_neg nullW]
        refine iff_of_false ?_ (SortValue.number_ne_bot _).symm
        rw [nullV]
        exact fun same => nullW same.symm
    · by_cases nullW : w = null
      · simp only [if_neg nullV, if_pos nullW]
        refine iff_of_false ?_ (SortValue.number_ne_bot _)
        rw [nullW]
        exact nullV
      · simp only [if_neg nullV, if_neg nullW]
        rw [SortValue.number_injective, toInt_injective]

/-- Floats, where the bytes of a NaN are those of no number. -/
theorem tells_float {α : Type} {isNan : α → Bool} {total : α → Int} {bytes : α → Bytes}
    {nan : Bytes} (total_injective : ∀ v w, total v = total w ↔ v = w)
    (bytes_injective : ∀ v w, bytes v = bytes w ↔ v = w)
    (nan_bytes : ∀ v, bytes v = nan → isNan v = true) :
    Tells (fun v => if isNan v then [nan] else [bytes v])
      fun v => if isNan v then ⊥ else SortValue.number (total v) := by
  have one : (fun v => if isNan v then [nan] else [bytes v]) =
      fun v => [if isNan v then nan else bytes v] := by
    funext v
    split <;> rfl
  rw [one]
  apply Tells.of_one
  intro v w
  cases nanV : isNan v with
  | true =>
    cases nanW : isNan w with
    | true => simp
    | false =>
      refine iff_of_false (fun same => ?_) (SortValue.number_ne_bot _).symm
      have nan' := nan_bytes w same.symm
      rw [nanW] at nan'
      cases nan'
  | false =>
    cases nanW : isNan w with
    | true =>
      refine iff_of_false (fun same => ?_) (SortValue.number_ne_bot _)
      have nan' := nan_bytes v same
      rw [nanV] at nan'
      cases nan'
    | false =>
      show bytes v = bytes w ↔ SortValue.number (total v) = SortValue.number (total w)
      rw [SortValue.number_injective, bytes_injective, total_injective]

theorem tells_int : Tells (fun v : Int32 => [i32Le v])
    fun v => if v = nullInt then ⊥ else SortValue.number v.toInt :=
  tells_integer (fun _ _ => Int32.toInt_inj) fun v w =>
    ⟨fun same => by rw [← leI32_i32Le v, same, leI32_i32Le], congrArg i32Le⟩

theorem tells_long : Tells (fun v : Int64 => [i64Le v])
    fun v => if v = nullLong then ⊥ else SortValue.number v.toInt :=
  tells_integer (fun _ _ => Int64.toInt_inj) fun v w =>
    ⟨fun same => by rw [← leI64_i64Le v, same, leI64_i64Le], congrArg i64Le⟩

theorem total_injective32 (v w : F32) : v.total = w.total ↔ v = w := by
  refine ⟨fun same => ?_, congrArg F32.total⟩
  obtain ⟨sign, magnitude⟩ := signed_eq_of_total_eq same
  obtain ⟨bits⟩ := v
  obtain ⟨bits'⟩ := w
  have bound := bits.toNat_lt
  have bound' := bits'.toNat_lt
  simp only [F32.isNegative, F32.magnitude, decide_eq_decide] at sign magnitude
  have same : bits.toNat = bits'.toNat := by omega
  rw [UInt32.toNat_inj.mp same]

theorem total_injective64 (v w : F64) : v.total = w.total ↔ v = w := by
  refine ⟨fun same => ?_, congrArg F64.total⟩
  obtain ⟨sign, magnitude⟩ := signed_eq_of_total_eq same
  obtain ⟨bits⟩ := v
  obtain ⟨bits'⟩ := w
  have bound := bits.toNat_lt
  have bound' := bits'.toNat_lt
  simp only [F64.isNegative, F64.magnitude, decide_eq_decide] at sign magnitude
  have same : bits.toNat = bits'.toNat := by omega
  rw [UInt64.toNat_inj.mp same]

theorem tells_float32 : Tells
    (fun v : F32 => if v.isNan then [[1, 0, 128, 127]] else [f32Le v])
    fun v => if v.isNan then ⊥ else SortValue.number v.total := by
  refine tells_float total_injective32
    (fun v w => ⟨fun same => by rw [← leF32_f32Le v, same, leF32_f32Le], congrArg f32Le⟩)
    fun v same => ?_
  rw [← leF32_f32Le v, same]
  decide

theorem tells_float64 : Tells
    (fun v : F64 => if v.isNan then [[0, 0, 0, 0, 0, 0, 248, 127]] else [f64Le v])
    fun v => if v.isNan then ⊥ else SortValue.number v.total := by
  refine tells_float total_injective64
    (fun v w => ⟨fun same => by rw [← leF64_f64Le v, same, leF64_f64Le], congrArg f64Le⟩)
    fun v same => ?_
  rw [← leF64_f64Le v, same]
  decide

theorem text_injective {s t : List Char} : SortValue.text s = SortValue.text t ↔ s = t := by
  constructor
  · intro eq
    exact congrArg Prod.snd (congrArg ofLex (WithBot.coe_injective eq))
  · exact congrArg SortValue.text

/-- The bytes of a string are hashed behind a mark. -/
def stringBytes (f : List Char → List Char) : Option (List Char) → List Bytes
  | some s => [[1], Utf8.encode (f s)]
  | none => [[0]]

theorem tells_string (f : List Char → List Char) : Tells (stringBytes f)
    fun v => v.elim ⊥ fun s => SortValue.text (f s) where
  same v w := by
    cases v with
    | none =>
      cases w with
      | none => exact iff_of_true rfl rfl
      | some t => exact iff_of_false (by simp [stringBytes]) WithBot.bot_ne_coe
    | some s =>
      cases w with
      | none => exact iff_of_false (by simp [stringBytes]) WithBot.coe_ne_bot
      | some t =>
        show [[1], Utf8.encode (f s)] = [[1], Utf8.encode (f t)] ↔
          SortValue.text (f s) = SortValue.text (f t)
        rw [text_injective, ← Utf8.encode_injective.eq_iff]
        simp
  apart v w x y eq := by
    cases v <;> cases w <;> simp [stringBytes] at eq ⊢
    exact eq.1

/-! ## Hashed objects -/

theorem hashedBytes_string {object : IsarDeserializer} {p : NativeProperty} {caseSensitive : Bool}
    {v : Option (List Char)} (type : p.dataType = .string) (read : object.readStr p.offset = some v) :
    object.hashedBytes toLowercase p caseSensitive =
      some (stringBytes (fun s => if caseSensitive then s else toLowercase s) v) := by
  have compared := @comparedBytes_of_readStr toLowercase _ _ caseSensitive _ read
  unfold IsarDeserializer.hashedBytes
  rw [type]
  show (object.readString p.offset).bind _ = _
  obtain ⟨found, stored, compared⟩ := Option.bind_eq_some_iff.mp compared
  rw [stored, Option.bind_some]
  cases found with
  | none =>
    cases v with
    | none => rfl
    | some s => cases compared
  | some bytes =>
    obtain ⟨bytes', eq, some_⟩ := Option.map_eq_some_iff.mp compared
    cases v with
    | none => cases some_
    | some s =>
      have same : bytes' = Utf8.encode (if caseSensitive then s else toLowercase s) :=
        Option.some.inj some_
      show (comparedBytes toLowercase bytes caseSensitive).map _ = _
      rw [eq, same]
      rfl

namespace DistinctKey

theorem alike_eq_value {key : DistinctKey} (notReal : ¬ key.sortKey.IsReal) (o : QueryObject) :
    key.alike toLowercase o = key.sortKey.value toLowercase o := by
  unfold alike
  rw [SortKey.compared_eq_value notReal]
  split
  · rename_i null
    exact null.symm
  · rfl

/-- The byte sequences that are hashed for the property. -/
def bytes (toLowercase : List Char → List Char) (key : DistinctKey) (o : QueryObject) : List Bytes :=
  (o.2.hashedBytes toLowercase key.1 key.2).getD []

theorem tells_of_read {α : Type} (read : IsarDeserializer → Option α) {f : α → List Bytes}
    {g : α → SortValue} (tells : Tells f g) {key : DistinctKey} {a b : QueryObject}
    (readsA : (read a.2).isSome) (readsB : (read b.2).isSome)
    (hashed : ∀ o : QueryObject, (read o.2).isSome →
      o.2.hashedBytes toLowercase key.1 key.2 = (read o.2).map f)
    (valued : ∀ o : QueryObject, key.alike toLowercase o = ((read o.2).map g).getD ⊥) :
    (key.bytes toLowercase a = key.bytes toLowercase b ↔
        key.alike toLowercase a = key.alike toLowercase b) ∧
      ∀ x y, key.bytes toLowercase a ++ x = key.bytes toLowercase b ++ y →
        key.bytes toLowercase a = key.bytes toLowercase b := by
  obtain ⟨v, eqA⟩ := Option.isSome_iff_exists.mp readsA
  obtain ⟨w, eqB⟩ := Option.isSome_iff_exists.mp readsB
  unfold bytes
  rw [hashed a readsA, hashed b readsB, valued, valued, eqA, eqB]
  exact ⟨tells.same v w, tells.apart v w⟩

/-- A float is alike by its bits, unless it is null. -/
theorem alike_real {α : Type} {read : Option α} {isNan : α → Bool} {rank total : α → Int} :
    (if (read.map fun v => if isNan v then ⊥ else SortValue.number (rank v)).getD ⊥ = ⊥ then ⊥
      else (read.map fun v => SortValue.number (total v)).getD ⊥) =
      (read.map fun v => if isNan v then ⊥ else SortValue.number (total v)).getD ⊥ := by
  cases read with
  | none => exact if_pos rfl
  | some v =>
    simp only [Option.map_some, Option.getD_some]
    cases isNan v with
    | true => exact if_pos rfl
    | false => exact if_neg (SortValue.number_ne_bot _)

/-- The hashed bytes of a property tell apart exactly what is not alike. -/
theorem bytes_tell {key : DistinctKey} {a b : QueryObject}
    (readsA : (key.sortKey.read toLowercase a).isSome)
    (readsB : (key.sortKey.read toLowercase b).isSome) :
    (key.bytes toLowercase a = key.bytes toLowercase b ↔
        key.alike toLowercase a = key.alike toLowercase b) ∧
      ∀ x y, key.bytes toLowercase a ++ x = key.bytes toLowercase b ++ y →
        key.bytes toLowercase a = key.bytes toLowercase b := by
  obtain ⟨p, caseSensitive⟩ := key
  have value (type : p.dataType ≠ .float ∧ p.dataType ≠ .double) (o : QueryObject) :
      alike toLowercase (p, caseSensitive) o =
        ((sortKey (p, caseSensitive)).read toLowercase o).getD ⊥ := by
    refine alike_eq_value ?_ o
    rintro ⟨p', same, real⟩
    cases same
    exact real.elim type.1 type.2
  have nothing (noBytes : ∀ o : QueryObject, o.2.hashedBytes toLowercase p caseSensitive = some [])
      (noValue : ∀ o : QueryObject, alike toLowercase (p, caseSensitive) o = ⊥) :
      (bytes toLowercase (p, caseSensitive) a = bytes toLowercase (p, caseSensitive) b ↔
          alike toLowercase (p, caseSensitive) a = alike toLowercase (p, caseSensitive) b) ∧
        ∀ x y, bytes toLowercase (p, caseSensitive) a ++ x =
            bytes toLowercase (p, caseSensitive) b ++ y →
          bytes toLowercase (p, caseSensitive) a = bytes toLowercase (p, caseSensitive) b := by
    unfold bytes
    rw [noBytes a, noBytes b, noValue a, noValue b]
    exact ⟨iff_of_true rfl rfl, fun _ _ _ => rfl⟩
  unfold SortKey.read sortKey at value readsA readsB
  unfold IsarDeserializer.hashedBytes at nothing
  cases type : p.dataType
  all_goals simp only [type, Option.isSome_map] at value readsA readsB nothing
  case bool =>
    exact tells_of_read (·.readBool p.offset) tells_bool readsA readsB
      (fun o _ => by unfold IsarDeserializer.hashedBytes; simp only [type]) (value (by decide))
  case byte =>
    exact tells_of_read (·.readByte p.offset) tells_byte readsA readsB
      (fun o _ => by unfold IsarDeserializer.hashedBytes; simp only [type]) (value (by decide))
  case int =>
    exact tells_of_read (·.readInt p.offset) tells_int readsA readsB
      (fun o _ => by unfold IsarDeserializer.hashedBytes; simp only [type]) (value (by decide))
  case float =>
    refine tells_of_read (·.readFloat p.offset) tells_float32 readsA readsB
      (fun o _ => by unfold IsarDeserializer.hashedBytes; simp only [type]) fun o => ?_
    unfold alike SortKey.value SortKey.compared SortKey.readCompared SortKey.read sortKey
    simp only [type]
    exact alike_real
  case long =>
    exact tells_of_read (·.readLong p.offset) tells_long readsA readsB
      (fun o _ => by unfold IsarDeserializer.hashedBytes; simp only [type]) (value (by decide))
  case double =>
    refine tells_of_read (·.readDouble p.offset) tells_float64 readsA readsB
      (fun o _ => by unfold IsarDeserializer.hashedBytes; simp only [type]) fun o => ?_
    unfold alike SortKey.value SortKey.compared SortKey.readCompared SortKey.read sortKey
    simp only [type]
    exact alike_real
  case string =>
    refine tells_of_read (·.readStr p.offset)
      (tells_string fun s => if caseSensitive then s else toLowercase s) readsA readsB
      (fun o reads => ?_) (value (by decide))
    obtain ⟨v, read⟩ := Option.isSome_iff_exists.mp reads
    rw [read]
    exact hashedBytes_string type read
  all_goals exact nothing (fun _ => trivial) (value (by decide))

theorem isSome_hashedBytes {key : DistinctKey} {o : QueryObject}
    (reads : (key.sortKey.read toLowercase o).isSome) :
    o.2.hashedBytes toLowercase key.1 key.2 = some (key.bytes toLowercase o) := by
  have some_ : (o.2.hashedBytes toLowercase key.1 key.2).isSome := by
    obtain ⟨p, caseSensitive⟩ := key
    unfold SortKey.read sortKey at reads
    cases type : p.dataType
    all_goals simp only [type, Option.isSome_map] at reads
    case string =>
      obtain ⟨v, read⟩ := Option.isSome_iff_exists.mp reads
      rw [hashedBytes_string type read]
      rfl
    all_goals
      unfold IsarDeserializer.hashedBytes
      simp only [type, Option.isSome_map, Option.isSome_some, reads]
  obtain ⟨bytes', eq⟩ := Option.isSome_iff_exists.mp some_
  rw [bytes, eq]
  rfl

end DistinctKey

/-- The byte sequences that are hashed for an object. -/
def hashChain (toLowercase : List Char → List Char) (distinct : List DistinctKey)
    (o : QueryObject) : List Bytes :=
  distinct.flatMap fun key => key.bytes toLowercase o

/-- The hash of an object chains its byte sequences. -/
theorem hashProperties_eq {distinct : List DistinctKey} {o : QueryObject}
    (reads : ∀ key ∈ distinct, (key.sortKey.read toLowercase o).isSome) :
    o.2.hashProperties toLowercase xxh3_64_with_seed distinct =
      some ((hashChain toLowercase distinct o).foldl
        (fun seed bytes => xxh3_64_with_seed bytes seed) 0) := by
  unfold IsarDeserializer.hashProperties
  generalize (0 : UInt64) = seed
  induction distinct generalizing seed with
  | nil => rfl
  | cons key distinct ih =>
    have first := DistinctKey.isSome_hashedBytes (reads key List.mem_cons_self)
    rw [List.foldlM_cons, hashProperty_eq, first, Option.map_some, Option.bind_eq_bind,
      Option.bind_some, ih fun k mem => reads k (List.mem_cons_of_mem key mem), hashChain, hashChain,
      List.flatMap_cons, List.foldl_append]

/-- Objects have the same byte sequences exactly if they are alike under each property. -/
theorem hashChain_eq_iff {distinct : List DistinctKey} {a b : QueryObject}
    (readsA : ∀ key ∈ distinct, (key.sortKey.read toLowercase a).isSome)
    (readsB : ∀ key ∈ distinct, (key.sortKey.read toLowercase b).isSome) :
    hashChain toLowercase distinct a = hashChain toLowercase distinct b ↔
      alikeValues toLowercase distinct a = alikeValues toLowercase distinct b := by
  induction distinct with
  | nil => exact iff_of_true rfl rfl
  | cons key distinct ih =>
    obtain ⟨same, apart⟩ := DistinctKey.bytes_tell (readsA key List.mem_cons_self)
      (readsB key List.mem_cons_self)
    have rest := ih (fun k mem => readsA k (List.mem_cons_of_mem key mem))
      fun k mem => readsB k (List.mem_cons_of_mem key mem)
    unfold alikeValues at rest ⊢
    unfold hashChain at rest ⊢
    rw [List.flatMap_cons, List.flatMap_cons, List.map_cons, List.map_cons, List.cons_eq_cons,
      ← same, ← rest]
    constructor
    · intro eq
      have first := apart _ _ eq
      rw [first] at eq
      exact ⟨first, List.append_cancel_left eq⟩
    · intro ⟨first, later⟩
      rw [first, later]

/-- The objects with a new hash are those that are not alike to one before them. -/
theorem distinctObjects_eq_firsts {distinct : List DistinctKey} {hash : QueryObject → UInt64}
    {objects : List QueryObject} (hashes : List UInt64)
    (hashed : ∀ o ∈ objects,
      o.2.hashProperties toLowercase xxh3_64_with_seed distinct = some (hash o)) :
    distinctObjects toLowercase xxh3_64_with_seed distinct hashes objects =
      some (firsts hash hashes objects) := by
  induction objects generalizing hashes with
  | nil => rfl
  | cons o objects ih =>
    have others := fun o' mem => hashed o' (List.mem_cons_of_mem o mem)
    have first := hashed o List.mem_cons_self
    obtain ⟨id, object⟩ := o
    rw [distinctObjects, first, Option.bind_eq_bind, Option.bind_some, firsts]
    by_cases seen : hash (id, object) ∈ hashes
    · rw [if_pos seen, if_pos seen, ih hashes others]
    · rw [if_neg seen, if_neg seen, ih (hash (id, object) :: hashes) others]
      rfl

/-- Without collisions, these are the objects that are not alike to one before them. -/
theorem distinctObjects_eq_firsts_alike {distinct : List DistinctKey} {objects : List QueryObject}
    (reads : ∀ o ∈ objects, ∀ key ∈ distinct,
      ((DistinctKey.sortKey key).read toLowercase o).isSome)
    (free : CollisionFree xxh3_64_with_seed 0 (objects.flatMap fun o =>
      hashInputs xxh3_64_with_seed 0 (hashChain toLowercase distinct o))) :
    distinctObjects toLowercase xxh3_64_with_seed distinct [] objects =
      some (firsts (alikeValues toLowercase distinct) [] objects) := by
  have tells : ∀ a ∈ objects, ∀ b ∈ objects,
      (hashChain toLowercase distinct a).foldl
          (fun seed bytes => xxh3_64_with_seed bytes seed) 0 =
        (hashChain toLowercase distinct b).foldl
          (fun seed bytes => xxh3_64_with_seed bytes seed) 0 ↔
      alikeValues toLowercase distinct a = alikeValues toLowercase distinct b := by
    intro a memA b memB
    rw [← hashChain_eq_iff (reads a memA) (reads b memB)]
    refine ⟨fun same => chain_injective ?_ same, fun same => by rw [same]⟩
    have within {x : Bytes × UInt64}
        (mem : x ∈ hashInputs xxh3_64_with_seed 0 (hashChain toLowercase distinct a) ++
          hashInputs xxh3_64_with_seed 0 (hashChain toLowercase distinct b)) :
        x ∈ objects.flatMap fun o => hashInputs xxh3_64_with_seed 0
          (hashChain toLowercase distinct o) := by
      rw [List.mem_flatMap]
      exact (List.mem_append.mp mem).elim (fun mem => ⟨a, memA, mem⟩) fun mem => ⟨b, memB, mem⟩
    exact {
      injective := fun x memX y memY => free.injective x (within memX) y (within memY)
      fresh := fun x memX => free.fresh x (within memX) }
  rw [distinctObjects_eq_firsts [] fun o mem => hashProperties_eq (reads o mem)]
  exact congrArg some (@firsts_congr _ _ _ _ _ _ _ [] objects tells)

end

/-! ## Distinct results -/

/-- The result of a distinct query: of the objects in their order the first one for each of the
values of the distinct properties. -/
structure DistinctResult (toLowercase : List Char → List Char) (distinct : List DistinctKey)
    (ordered result : List QueryObject) : Prop where
  first : FirstOfEach (distinctValues toLowercase distinct) ordered result
  apart : result.Pairwise fun a b =>
    distinctValues toLowercase distinct a ≠ distinctValues toLowercase distinct b
  all : ∀ a ∈ ordered, ∃ r ∈ result,
    distinctValues toLowercase distinct r = distinctValues toLowercase distinct a

/-- A distinct query keeps the first object for each of the values exactly if the objects without
an earlier one of the same values are those without an earlier one that is alike, and the missing
limit does not cut them off. -/
theorem distinct_exact {σ : Type} {libs : QueryLibraries σ} {txn : NativeTxn} {c : NativeCollection}
    (lawful : libs.Lawful txn c) (sorts : SortsUnstably libs.sortUnstableBy)
    {objects ordered : List QueryObject} (stored : txn.objects c = some objects) {fuel : Nat}
    (enough : objects.length < fuel) {query : NativeQuery}
    (evaluates : ∀ o ∈ objects, (query.filter.evaluate libs.toLowercase o.1 o.2).isSome)
    (sorted : query.ordered libs false (objects.filter (query.filter.accepts libs.toLowercase)) =
      some ordered)
    (keys : query.distinct ≠ [])
    (reads : ∀ o ∈ ordered, ∀ key ∈ query.distinct,
      ((DistinctKey.sortKey key).read libs.toLowercase o).isSome)
    (free : CollisionFree libs.xxh3_64_with_seed 0 (ordered.flatMap fun o =>
      hashInputs libs.xxh3_64_with_seed 0 (hashChain libs.toLowercase query.distinct o))) :
    (∃ result, query.Lists libs fuel c none none result ∧
      DistinctResult libs.toLowercase query.distinct ordered result) ↔
    ∀ before a after, ordered = before ++ a :: after →
      ((∀ e ∈ before, alikeValues libs.toLowercase query.distinct e ≠
          alikeValues libs.toLowercase query.distinct a) ∧
        (before.map (alikeValues libs.toLowercase query.distinct)).dedup.length < 0xffffffff ↔
      ∀ e ∈ before, distinctValues libs.toLowercase query.distinct e ≠
        distinctValues libs.toLowercase query.distinct a) := by
  have filtered := matching_eq_filter evaluates
  have nodup : ordered.Nodup := by
    rw [(ordered_perm sorts sorted).nodup_iff]
    apply List.Nodup.filter
    exact (ascending_objects stored).imp fun below same => by
      rw [same] at below
      exact Int64.lt_irrefl below
  have selects : query.selected libs txn c false =
      some (firsts (alikeValues libs.toLowercase query.distinct) [] ordered) := by
    have distinct' : (!query.distinct.isEmpty) = true := by simp [keys]
    rw [NativeQuery.selected, stored, Option.bind_some, filtered, Option.bind_some, sorted,
      Option.bind_some, NativeQuery.deduplicated, if_pos distinct']
    exact distinctObjects_eq_firsts_alike reads free
  obtain ⟨it, opened, yields⟩ :=
    QueryIterator.yields lawful stored enough selects 0 0xffffffff
  have noOffset : (0 : UInt32).toNat = 0 := rfl
  have noLimit : (0xffffffff : UInt32).toNat = 0xffffffff := rfl
  rw [noOffset, noLimit, List.drop_zero] at yields
  rw [← firstOfEach_take_iff nodup]
  constructor
  · intro lists
    obtain ⟨result, ⟨it', opened', yields'⟩, right⟩ := lists
    cases Option.some.inj (opened'.symm.trans opened)
    rw [← yields'.unique yields]
    exact right.first
  · intro first
    exact ⟨_, ⟨it, opened, yields⟩, first, first.apart, fun a mem => first.all mem⟩

/-! ## Objects with a byte and objects with bytes -/

/-- `xxh3_64_with_seed` of one to three bytes. -/
def shortXxh3 (bytes : Bytes) (seed : UInt64) : UInt64 :=
  let first := (bytes.headD 0).toUInt64
  let middle := (bytes.getD (bytes.length / 2) 0).toUInt64
  let last := (bytes.getLastD 0).toUInt64
  let combined := first <<< 16 ||| middle <<< 24 ||| last ||| UInt64.ofNat bytes.length <<< 8
  let hash := combined ^^^ (0x87275a9b + seed)
  let hash := (hash ^^^ hash >>> 33) * 0xc2b2ae3d27d4eb4f
  let hash := (hash ^^^ hash >>> 29) * 0x165667b19e3779f9
  hash ^^^ hash >>> 32

/-- Libraries for the cursors of one database, with the hash of short byte sequences. -/
def hashLibraries (db : KeyValueDb) : QueryLibraries (SortedCursor.Position KeyVal) :=
  { listLibraries db with xxh3_64_with_seed := shortXxh3 }

theorem lawful_hashLibraries (txn : NativeTxn) {c : NativeCollection} {name : Db}
    (opened : c.db = some name) :
    (hashLibraries (primaryDb (txn.primary name))).Lawful txn c := by
  intro db same
  cases Option.some.inj (opened.symm.trans same)
  exact ⟨Eq, KeyValueDb.lawful_listCursor _⟩

/-- One object for each brightness. -/
def byBrightness : NativeQuery :=
  { filter := .stat true, sort := [], distinct := [(⟨.byte, 0, none⟩, true)] }

theorem distinct_on_pixels :
    (∃ result, byBrightness.Lists
        (hashLibraries (primaryDb ((storedPixels [7, 3, 7]).primary "pixels"))) 4 pixels none none
        result ∧
      DistinctResult id byBrightness.distinct [(1, ⟨[7], 1⟩), (2, ⟨[3], 1⟩), (3, ⟨[7], 1⟩)]
        result) ↔
    ∀ before a after,
      [((1 : Int64), IsarDeserializer.mk [7] 1), (2, ⟨[3], 1⟩), (3, ⟨[7], 1⟩)] =
        before ++ a :: after →
      ((∀ e ∈ before, alikeValues id byBrightness.distinct e ≠
          alikeValues id byBrightness.distinct a) ∧
        (before.map (alikeValues id byBrightness.distinct)).dedup.length < 0xffffffff ↔
      ∀ e ∈ before, distinctValues id byBrightness.distinct e ≠
        distinctValues id byBrightness.distinct a) := by
  have stored : (storedPixels [7, 3, 7]).objects pixels =
      some [(1, ⟨[7], 1⟩), (2, ⟨[3], 1⟩), (3, ⟨[7], 1⟩)] := by decide +kernel
  exact distinct_exact
    (lawful_hashLibraries (storedPixels [7, 3, 7]) rfl) sortsUnstably_insertionSortBy stored
    (by decide) (by decide +kernel) (by decide +kernel) (by decide) (by decide +kernel)
    ⟨by decide +kernel, by decide +kernel⟩

/-- A collection of objects with a list of bytes, with an object for each of the lists. -/
def melodies : NativeCollection :=
  .new 0 "melodies" (some "id") [("notes", ⟨.byteList, 0, none⟩)] [] (some "melodies")

def storedMelodies (lists : List Bytes) : NativeTxn :=
  (lists.zipIdx 1).foldl (fun txn (list, id) => txn.putObject "melodies" (Int64.ofNat id)
    ([3, 0, 0] ++ [3, 0, 0] ++ leBytes 3 list.length ++ list)) .empty

/-- The object of a melody. -/
def melody (id : Int64) (list : Bytes) : QueryObject :=
  (id, ⟨[3, 0, 0] ++ leBytes 3 list.length ++ list, 3⟩)

/-- One object for each list of notes. -/
def byNotes : NativeQuery :=
  { filter := .stat true, sort := [], distinct := [(⟨.byteList, 0, none⟩, true)] }

/-- Of two different lists only the first one is kept. -/
theorem second_melody_missing :
    ¬ ∃ result, byNotes.Lists
        (hashLibraries (primaryDb ((storedMelodies [[7], [3]]).primary "melodies"))) 3 melodies none
        none result ∧
      DistinctResult id byNotes.distinct [melody 1 [7], melody 2 [3]] result := by
  intro ⟨result, ⟨it, opened, yields⟩, right⟩
  have selects : byNotes.selected
      (hashLibraries (primaryDb ((storedMelodies [[7], [3]]).primary "melodies")))
      (storedMelodies [[7], [3]]) melodies false = some [melody 1 [7]] := by decide +kernel
  have stored : (storedMelodies [[7], [3]]).objects melodies =
      some [melody 1 [7], melody 2 [3]] := by decide +kernel
  obtain ⟨it', opened', yields'⟩ := QueryIterator.yields
    (lawful_hashLibraries (storedMelodies [[7], [3]]) rfl) stored (by decide : _ < 3) selects 0
    0xffffffff
  cases Option.some.inj (opened'.symm.trans opened)
  have only : result = [melody 1 [7]] := yields.unique yields'
  obtain ⟨r, mem, same⟩ := right.all (melody 2 [3]) (by simp)
  rw [only, List.mem_singleton] at mem
  subst mem
  have seven : distinctValues id byNotes.distinct (melody 1 [7]) =
      [(⊥, some [SortValue.number 7])] := rfl
  have three : distinctValues id byNotes.distinct (melody 2 [3]) =
      [(⊥, some [SortValue.number 3])] := rfl
  rw [seven, three] at same
  simp [SortValue.number_injective] at same

end IsarPlus.Native
