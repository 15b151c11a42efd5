import IsarPlus.Native.StoredValues
import IsarPlus.Native.Proofs.ObjectLimit

/-!
# Updates of stored values

An update touches the slot of one value and its dynamic bytes, or appends. The other values of the
object stand as they stood.
-/

namespace IsarPlus.Native
open ByteBuffer Scalar
open Sqlite (Written)
open IsarSerializer

/-! ## Writes to one value -/

section
variable {all : List NativeCollection} {b b' : Bytes} {n : Nat} {e e' : StoredValue}
  {values : List StoredValue}

theorem StoredValue.Apart.symm (h : e.Apart all e') : e'.Apart all e :=
  ⟨h.name.symm, h.slots.symm, h.ranges.symm⟩

/-- A buffer that differs in the bytes of one value only, and may have grown. -/
structure Touches1 (all : List NativeCollection) (b b' : Bytes) (e : StoredValue) : Prop where
  grown : b.length ≤ b'.length
  same : ∀ lo hi, hi ≤ b.length →
    (hi ≤ 3 + e.property.offset ∨
      3 + e.property.offset + e.property.dataType.staticSize ≤ lo) →
    (hi ≤ e.at_ ∨ e.end_ all ≤ lo) → AgreeOn b b' lo hi

/-- A value that is apart from the one that is touched stands as it stood. -/
theorem StoredValue.Stands.congr (laid : ∀ c ∈ all, c.Laid) (room : 3 + n ≤ b.length)
    (touches : Touches1 all b b' e) (stands : e.Stands all b n) (stands' : e'.Stands all b n)
    (apart : e.Apart all e') : e'.Stands all b' n := by
  have slot := stands.slot
  have slot' := stands'.slot
  have behind := stands.behind
  have behind' := stands'.behind
  have inside' := stands'.inside
  refine ⟨slot', stands'.typed, stands'.fits, ?_, behind', inside'.trans touches.grown⟩
  refine stands'.holds.congr laid stands'.typed ?_ ?_ touches.grown
  · refine touches.same _ _ (by omega) ?_ (Or.inl (by omega))
    rcases apart.slots with before | after
    · exact Or.inr (by omega)
    · exact Or.inl (by omega)
  · exact touches.same _ _ inside' (Or.inr (by omega)) apart.ranges.symm

/-- The value that is touched has a new value behind the others, or in its old range. -/
theorem Contains.replace (laid : ∀ c ∈ all, c.Laid) {before after : List StoredValue}
    (contains : Contains all b n (before ++ e :: after)) (touches : Touches1 all b b' e)
    (name : e'.name = e.name) (property : e'.property = e.property) (stands : e'.Stands all b' n)
    (range : (e'.at_ = e.at_ ∧ e'.end_ all ≤ e.end_ all) ∨ b.length ≤ e'.at_) :
    Contains all b' n (before ++ e' :: after) := by
  have own := contains.stands e (by simp)
  have apart := List.pairwise_append.mp contains.apart
  obtain ⟨apartAfter, apart'⟩ := List.pairwise_cons.mp apart.2.1
  have moved (x : StoredValue) (mem : x.Stands all b n) (other : e.Apart all x) :
      e'.Apart all x := by
    refine ⟨by rw [name]; exact other.name, by rw [property]; exact other.slots, ?_⟩
    rcases range with ⟨start, shorter⟩ | behind
    · rw [start]
      exact other.ranges.imp (fun h => shorter.trans h) id
    · exact Or.inr (mem.inside.trans behind)
  have old (x : StoredValue) (mem : x ∈ before ∨ x ∈ after) : x.Stands all b n :=
    contains.stands x (by simp; tauto)
  have other (x : StoredValue) (mem : x ∈ before ∨ x ∈ after) : e.Apart all x := by
    rcases mem with mem | mem
    · exact (apart.2.2 x mem e List.mem_cons_self).symm
    · exact apartAfter x mem
  refine ⟨?_, contains.small, contains.room.trans touches.grown, ?_, ?_⟩
  · have room := contains.room
    have behind := own.behind
    have header := contains.header.bound
    rw [length_leBytes] at header
    refine contains.header.congr ?_ (by rw [length_leBytes]; have := touches.grown; omega)
    rw [length_leBytes]
    exact touches.same _ _ (by omega) (Or.inl (by omega)) (Or.inl (by omega))
  · intro x mem
    have cases_ : x = e' ∨ x ∈ before ∨ x ∈ after := by
      simp only [List.mem_append, List.mem_cons] at mem
      tauto
    rcases cases_ with rfl | mem
    · exact stands
    · exact own.congr laid contains.room touches (old x mem) (other x mem)
  · refine List.pairwise_append.mpr ⟨apart.1, List.pairwise_cons.mpr ⟨fun x mem => ?_, apart'⟩, ?_⟩
    · exact moved x (old x (Or.inr mem)) (other x (Or.inr mem))
    · intro x memX y memY
      rcases List.mem_cons.mp memY with rfl | memY
      · exact (moved x (old x (Or.inl memX)) (other x (Or.inl memX))).symm
      · exact apart.2.2 x memX y (List.mem_cons_of_mem _ memY)

theorem touches1_of_wrote {s s' : IsarSerializer} {k : Nat} (start : s.offset = 3)
    (wrote : Wrote s s' (s.offset + e.property.offset)
      (s.offset + e.property.offset + e.property.dataType.staticSize) k) :
    Touches1 all s.buffer s'.buffer e := by
  have length := wrote.length
  rw [start] at wrote
  refine ⟨by omega, fun lo hi inside slot _ => ?_⟩
  rcases slot with below | above
  · exact wrote.before.mono (Nat.zero_le _) below
  · exact wrote.after.mono above inside

/-- A value that is written to its slot, with its dynamic bytes behind all others. -/
theorem Contains.writes (laid : ∀ c ∈ all, c.Laid) {before after : List StoredValue}
    {s s' : IsarSerializer} {v : Written} (start : s.offset = 3)
    (contains : Contains all s.buffer n (before ++ e :: after)) (typed : Typed all e.property v)
    (fits : FitsAt all 3 s.buffer.length e.property v) (writes : Writes all s s' e.property v) :
    Contains all s'.buffer n (before ++ ⟨e.name, e.property, v, s.buffer.length⟩ :: after) := by
  have own := contains.stands e (by simp)
  refine contains.replace laid (touches1_of_wrote start writes.wrote) rfl rfl ?_
    (Or.inr le_rfl)
  refine ⟨own.slot, typed, fits, ?_, contains.room, ?_⟩
  · rw [← start]
    exact writes.holds
  · exact Nat.le_of_eq writes.wrote.length.symm

theorem Contains.fromBytes (contains : Contains all b n values) :
    IsarDeserializer.fromBytes b = some (sectionAt b 3 n) := by
  simp only [IsarDeserializer.fromBytes, readU24, readLe_of_at contains.header contains.small,
    Option.bind_eq_bind, Option.bind_some, Option.pure_def]
  rfl

/-! ## Updates -/

/-- The bytes of a value in the static section. -/
def slotBytes (t : DataType) : Written → Bytes
  | .null => nullBytes t
  | .bool v => [if v then trueBool else falseBool]
  | .byte v => [v]
  | .int v => i32Le v
  | .float v => f32Le v
  | .long v => i64Le v
  | .double v => f64Le v
  | _ => []

/-- What is not written to the static section alone. -/
def IsStatic : Written → Prop
  | .null => True
  | .bool _ => True
  | .byte _ => True
  | .int _ => True
  | .float _ => True
  | .long _ => True
  | .double _ => True
  | _ => False

/-- A call that updates a value writes its slot, or updates its dynamic bytes. -/
theorem writeValue_eq {c : NativeCollection} (s : IsarSerializer) {i : UInt16}
    {value : Option IsarValue} {q : NativeProperty} {v : Written}
    (found : c.getProperty i = some q) (new : updatedValue q.dataType value = some v) :
    Typed all q v ∧
      ((IsStatic v ∧ updatedLength value = none ∧
          c.writeValue s i value = orPanic (s.writeStaticChecked q.offset (slotBytes q.dataType v))) ∨
        ∃ text, v = .string text ∧ updatedLength value = some (Utf8.encode text).length ∧
          c.writeValue s i value = orPanic (s.updateDynamic q.offset (Utf8.encode text))) := by
  unfold NativeCollection.writeValue
  rw [found]
  cases value with
  | none =>
    obtain rfl : Written.null = v := by
      unfold updatedValue at new
      exact Option.some.inj new
    refine ⟨trivial, Or.inl ⟨trivial, rfl, ?_⟩⟩
    simp only [writeNull_eq]
    rfl
  | some value =>
    cases value <;> cases type : q.dataType <;> rw [type] at new <;>
      first
        | cases new; done
        | skip
    all_goals obtain rfl := Option.some.inj new
    case string.string => exact ⟨Or.inl type, Or.inr ⟨_, rfl, rfl, by simp only [type]⟩⟩
    case string.json => exact ⟨Or.inr type, Or.inr ⟨_, rfl, rfl, by simp only [type]⟩⟩
    all_goals exact ⟨type, Or.inl ⟨trivial, rfl, by simp only [type]; rfl⟩⟩

theorem writeValue_eq_fail {c : NativeCollection} (s : IsarSerializer) {i : UInt16}
    {value : Option IsarValue} {q : NativeProperty} (found : c.getProperty i = some q)
    (none_ : updatedValue q.dataType value = none) :
    c.writeValue s i value = fail .illegalArgument := by
  unfold NativeCollection.writeValue
  rw [found]
  cases value with
  | none =>
    unfold updatedValue at none_
    cases none_
  | some value =>
    cases value <;> cases type : q.dataType <;> rw [type] at none_ <;> first
      | cases none_; done
      | simp only [type]

/-- What is written was a value of the type of its property. -/
theorem exists_updatedValue {c : NativeCollection} {s s' : IsarSerializer} {i : UInt16}
    {value : Option IsarValue} (h : c.writeValue s i value = .ok s') :
    ∃ q v, c.getProperty i = some q ∧ updatedValue q.dataType value = some v := by
  cases found : c.getProperty i with
  | none =>
    unfold NativeCollection.writeValue at h
    rw [found] at h
    exact absurd h fail_ne_ok
  | some q =>
    cases new : updatedValue q.dataType value with
    | none =>
      rw [writeValue_eq_fail s found new] at h
      exact absurd h fail_ne_ok
    | some v => exact ⟨q, v, rfl, new⟩

theorem length_slotBytes {q : NativeProperty} {v : Written} (typed : Typed all q v)
    (static_ : IsStatic v) : (slotBytes q.dataType v).length = q.dataType.staticSize := by
  cases v with
  | null => exact length_nullBytes _
  | bool _ | byte _ | int _ | float _ | long _ | double _ =>
    have type : q.dataType = _ := typed
    rw [type]
    rfl
  | _ => cases static_

theorem writes_of_static {s s' : IsarSerializer} {q : NativeProperty} {v : Written}
    (open_ : s.Open) (slot : q.offset + q.dataType.staticSize ≤ s.staticSize)
    (typed : Typed all q v) (static_ : IsStatic v)
    (done : s.writeStaticChecked q.offset (slotBytes q.dataType v) = some s') :
    Writes all s s' q v := by
  have flat : dynamicSize all q v = 0 := by
    cases v <;> first
      | rfl
      | cases static_
  obtain ⟨s₁, eq, writes⟩ := writes_slot open_ slot (length_slotBytes typed static_) flat
    fun b base at_ stands => by
      cases v <;> first
        | exact stands
        | cases static_
  rw [done] at eq
  cases eq
  exact writes

/-- The text of a property is null, or it stands behind the static section. -/
theorem StoredValue.Stands.text (stands : e.Stands all b n)
    (type : e.property.dataType = .string ∨ e.property.dataType = .json) :
    e.value = .null ∨ ∃ text, e.value = .string text := by
  have typed := stands.typed
  cases value : e.value with
  | null => exact Or.inl rfl
  | string text => exact Or.inr ⟨text, rfl⟩
  | bool _ | byte _ | int _ | float _ | long _ | double _ | byteList _ =>
    rw [value] at typed
    have same : e.property.dataType = _ := typed
    rw [same] at type
    rcases type with type | type <;> cases type
  | object _ =>
    rw [value] at typed
    rw [typed.1] at type
    rcases type with type | type <;> cases type
  | list _ _ =>
    rw [value] at typed
    obtain ⟨-, t, elements, -⟩ := typed
    rcases type with type | type <;> rw [type] at elements <;> cases elements

theorem exists_text {v : Written} {n : Nat}
    (h : (textLength v).any fun m => decide (n ≤ m)) :
    ∃ text, v = .string text ∧ n ≤ (Utf8.encode text).length := by
  cases v with
  | string text => exact ⟨text, rfl, of_decide_eq_true h⟩
  | _ => cases h

/-- `update_dynamic` overwrites a text that is not shorter, or it appends. -/
theorem updateDynamic_eq {s : IsarSerializer} {data : Bytes} (start : s.offset = 3)
    (stands : e.Stands all s.buffer n)
    (type : e.property.dataType = .string ∨ e.property.dataType = .json) :
    s.updateDynamic e.property.offset data =
      if (textLength e.value).any fun m => decide (data.length ≤ m) then
        s.writeU24 (e.at_ - 3) data.length >>= fun s => s.write (e.at_ - 3 + 3) data
      else s.writeDynamic e.property.offset data := by
  have behind := stands.behind
  have fits := stands.fits
  have holds := stands.holds
  have size : e.property.dataType.staticSize = 3 := by
    rcases type with type | type <;> rw [type] <;> rfl
  have slot := stands.slot
  unfold updateDynamic
  rw [start, Nat.add_comm e.property.offset]
  rcases stands.text type with value | ⟨text, value⟩
  · rw [value] at holds
    have zero : nullBytes e.property.dataType = leBytes 3 0 := by
      rcases type with type | type <;> rw [type] <;> rfl
    have holds : At s.buffer (3 + e.property.offset) (leBytes 3 0) := zero ▸ holds
    rw [readU24, readLe_of_at holds (by decide), value]
    rfl
  · rw [value] at holds fits
    obtain ⟨offset, header, -⟩ := holds
    rw [readU24, readLe_of_at offset fits.1]
    have place : e.at_ - 3 + 3 = e.at_ := by omega
    simp only [Option.bind_eq_bind, Option.bind_some, if_pos (show e.at_ - 3 ≠ 0 by omega), readU24,
      place, readLe_of_at header fits.2, value, textLength, Option.any_some, decide_eq_true_eq]

/-- A text that is overwritten in its place. -/
theorem Contains.overwrite (laid : ∀ c ∈ all, c.Laid) {before after : List StoredValue}
    {s : IsarSerializer} {text text' : List Char} (start : s.offset = 3)
    (contains : Contains all s.buffer n (before ++ e :: after)) (value : e.value = .string text)
    (shorter : (Utf8.encode text').length ≤ (Utf8.encode text).length) :
    ∃ s', (s.writeU24 (e.at_ - 3) (Utf8.encode text').length >>= fun s =>
      s.write (e.at_ - 3 + 3) (Utf8.encode text')) = some s' ∧ s'.offset = 3 ∧
      s'.staticSize = s.staticSize ∧ s'.buffer.length = s.buffer.length ∧
      Contains all s'.buffer n (before ++ { e with value := .string text' } :: after) := by
  have stands := contains.stands e (by simp)
  have behind := stands.behind
  have inside := stands.inside
  have fits := stands.fits
  have holds := stands.holds
  have typed := stands.typed
  have slot := stands.slot
  have range : e.end_ all = e.at_ + (3 + (Utf8.encode text).length) := by
    rw [StoredValue.end_, value]
    rfl
  rw [value] at fits holds typed
  have size : e.property.dataType.staticSize = 3 := by
    rcases typed with type | type <;> rw [type] <;> rfl
  have small : (Utf8.encode text').length < 2 ^ 24 := lt_of_le_of_lt shorter fits.2
  have place : s.offset + (e.at_ - 3) = e.at_ := by omega
  have place' : s.offset + (e.at_ - 3 + 3) = e.at_ + 3 := by omega
  have room₁ : s.offset + (e.at_ - 3) + (leBytes 3 (Utf8.encode text').length).length ≤
      s.buffer.length := by
    rw [length_leBytes]
    omega
  obtain ⟨s₁, eq₁, wrote₁, header⟩ := IsarSerializer.write_spec room₁
  have length₁ := wrote₁.length
  have offset₁ := wrote₁.offset
  rw [place, length_leBytes] at wrote₁
  rw [place] at header
  have room₂ : s₁.offset + (e.at_ - 3 + 3) + (Utf8.encode text').length ≤ s₁.buffer.length := by
    omega
  obtain ⟨s₂, eq₂, wrote₂, data⟩ := IsarSerializer.write_spec room₂
  rw [offset₁, place'] at wrote₂ data
  have length₂ := wrote₂.length
  refine ⟨s₂, by simp only [writeU24_eq_write small, eq₁, Option.bind_eq_bind, Option.bind_some, eq₂],
    wrote₂.offset.trans (offset₁.trans start), wrote₂.staticSize.trans wrote₁.staticSize,
    length₂.trans length₁, ?_⟩
  have agree (lo hi : Nat) (within : hi ≤ s.buffer.length)
      (outside : hi ≤ e.at_ ∨ e.end_ all ≤ lo) : AgreeOn s.buffer s₂.buffer lo hi := by
    rcases outside with below | above
    · exact (wrote₁.before.mono (Nat.zero_le _) below).trans
        (wrote₂.before.mono (Nat.zero_le _) (by omega))
    · exact (wrote₁.after.mono (by omega) within).trans
        (wrote₂.after.mono (by omega) (by omega))
  have touches : Touches1 all s.buffer s₂.buffer e :=
    ⟨by omega, fun lo hi within _ outside => agree lo hi within outside⟩
  refine contains.replace laid touches rfl rfl ?_ (Or.inl ⟨rfl, ?_⟩)
  swap
  · rw [range]
    exact Nat.add_le_add_left (Nat.add_le_add_left shorter 3) e.at_
  refine ⟨slot, typed, ⟨fits.1, small⟩, ⟨?_, ?_, data⟩, behind, ?_⟩
  · refine holds.1.congr ?_ ?_
    · rw [length_leBytes]
      exact agree _ _ (by omega) (Or.inl (by omega))
    · rw [length_leBytes]
      omega
  · exact wrote₂.keeps header (Or.inl (by rw [length_leBytes]))
  · show e.at_ + (3 + (Utf8.encode text').length) ≤ _
    omega

/-- An update of a value leaves an object that has the new value instead. -/
theorem Contains.writeValue (laid : ∀ c ∈ all, c.Laid) {before after : List StoredValue}
    {c : NativeCollection} {s s' : IsarSerializer} {i : UInt16} {value : Option IsarValue}
    {q : NativeProperty} (start : s.offset = 3) (size : s.staticSize = n)
    (contains : Contains all s.buffer n (before ++ e :: after)) (found : c.getProperty i = some q)
    (type : q.dataType = e.property.dataType) (offset : q.offset = e.property.offset)
    (done : c.writeValue s i value = .ok s') :
    ∃ v at_, updatedValue q.dataType value = some v ∧ s'.offset = 3 ∧ s'.staticSize = n ∧
      grown s.buffer.length (textLength e.value) value = some s'.buffer.length ∧
      Contains all s'.buffer n (before ++ ⟨e.name, e.property, v, at_⟩ :: after) := by
  have stands := contains.stands e (by simp)
  have slot := stands.slot
  rw [← size] at slot
  have open_ : s.Open := by
    unfold Open
    rw [start, size]
    exact contains.room
  obtain ⟨q', v, found', new⟩ := exists_updatedValue done
  cases found.symm.trans found'
  obtain ⟨typed, write⟩ := writeValue_eq s found new
  have typed' : ∀ {v}, (IsStatic v ∨ ∃ text, v = .string text) → Typed all q v →
      Typed all e.property v := by
    intro v flat typed
    cases v <;> first
      | exact trivial
      | exact type.symm.trans typed
      | (rcases typed with typed | typed
         · exact Or.inl (type.symm.trans typed)
         · exact Or.inr (type.symm.trans typed))
      | (rcases flat with flat | ⟨_, flat⟩ <;> cases flat)
  have appended (v : Written) (writes : Writes all s s' e.property v) :
      s'.offset = 3 ∧ s'.staticSize = n :=
    ⟨writes.wrote.offset.trans start, writes.wrote.staticSize.trans size⟩
  rcases write with ⟨static_, noText, write⟩ | ⟨text, rfl, isText, write⟩
  · have typed := typed' (Or.inl static_) typed
    rw [write] at done
    have write := orPanic_eq_ok.mp done
    rw [type, offset] at write
    have writes := writes_of_static open_ slot typed static_ write
    obtain ⟨start', size'⟩ := appended v writes
    refine ⟨v, _, new, start', size', ?_, contains.writes laid start typed ?_ writes⟩
    · have length := writes.wrote.length
      rw [grown, noText]
      cases v <;> first
        | exact congrArg some length.symm
        | cases static_
    · cases v <;> first
        | exact trivial
        | cases static_
  · have typed := typed' (Or.inr ⟨text, rfl⟩) typed
    rw [write] at done
    have write := orPanic_eq_ok.mp done
    rw [offset, updateDynamic_eq start stands typed] at write
    rw [grown, isText]
    split at write
    · rename_i shorter
      obtain ⟨text', value, le⟩ := exists_text shorter
      obtain ⟨s₁, eq, start', size', length, contains'⟩ :=
        contains.overwrite laid start value le
      rw [write] at eq
      cases eq
      refine ⟨.string text, e.at_, new, start', size'.trans size, ?_, contains'⟩
      simp only [if_pos shorter, length]
    · rename_i longer
      by_cases fits : s.buffer.length - s.offset < 2 ^ 24 ∧ (Utf8.encode text).length < 2 ^ 24
      · have three : e.property.dataType.staticSize = 3 := by
          rcases typed with type | type <;> rw [type] <;> rfl
        obtain ⟨s₁, eq, writes⟩ : ∃ s₁, s.writeDynamic e.property.offset (Utf8.encode text) = some s₁ ∧
            Writes all s s₁ e.property (.string text) :=
          writes_dynamic open_ slot three fits.1 fits.2 rfl fun _ _ _ holds => holds
        rw [write] at eq
        cases eq
        obtain ⟨start', size'⟩ := appended _ writes
        rw [start] at fits
        refine ⟨.string text, _, new, start', size', ?_, contains.writes laid start typed fits
          writes⟩
        have length := writes.wrote.length
        simp only [if_neg longer, if_pos fits, length, dynamicSize]
      · rw [writeDynamic_eq_none fits] at write
        cases write

/-- An update that does not grow the object too far succeeds. -/
theorem Contains.exists_writeValue (laid : ∀ c ∈ all, c.Laid) {before after : List StoredValue}
    {c : NativeCollection}
    {s : IsarSerializer} {i : UInt16} {value : Option IsarValue} {q : NativeProperty} {v : Written}
    (start : s.offset = 3) (size : s.staticSize = n)
    (contains : Contains all s.buffer n (before ++ e :: after)) (found : c.getProperty i = some q)
    (type : q.dataType = e.property.dataType) (offset : q.offset = e.property.offset)
    (new : updatedValue q.dataType value = some v)
    (room : (grown s.buffer.length (textLength e.value) value).isSome) :
    ∃ s', c.writeValue s i value = .ok s' := by
  have stands := contains.stands e (by simp)
  have slot := stands.slot
  rw [← size] at slot
  have open_ : s.Open := by
    unfold Open
    rw [start, size]
    exact contains.room
  obtain ⟨typed, write⟩ := @writeValue_eq all c s i value q v found new
  rcases write with ⟨static_, -, write⟩ | ⟨text, rfl, isText, write⟩
  · have bound : q.offset + (slotBytes q.dataType v).length ≤ s.staticSize := by
      rw [length_slotBytes typed static_, type, offset]
      exact slot
    obtain ⟨s', done, -⟩ := writeStaticChecked_spec open_ bound
    exact ⟨s', by rw [write, done]; rfl⟩
  · have texts : e.property.dataType = .string ∨ e.property.dataType = .json := by
      rw [← type]
      exact typed
    rw [write, offset, updateDynamic_eq start stands texts]
    rw [grown, isText] at room
    split
    · rename_i shorter
      obtain ⟨text', value, le⟩ := exists_text shorter
      obtain ⟨s', done, -⟩ := contains.overwrite laid start value le
      exact ⟨s', by rw [done]; rfl⟩
    · rename_i longer
      simp only [if_neg longer] at room
      split at room
      · rename_i fits
        have three : e.property.dataType.staticSize = 3 := by
          rcases texts with type | type <;> rw [type] <;> rfl
        rw [← start] at fits
        obtain ⟨s', done, -⟩ : ∃ s', s.writeDynamic e.property.offset (Utf8.encode text) = some s' ∧
            Writes all s s' e.property (.string text) :=
          writes_dynamic open_ slot three fits.1 fits.2 rfl fun _ _ _ holds => holds
        exact ⟨s', by rw [done]; rfl⟩
      · cases room

/-- The same by the name of the value. -/
theorem Contains.update (laid : ∀ c ∈ all, c.Laid) {c : NativeCollection}
    {s s' : IsarSerializer} {i : UInt16} {value : Option IsarValue} {q : NativeProperty}
    (start : s.offset = 3) (size : s.staticSize = n) (contains : Contains all s.buffer n values)
    (mem : e ∈ values) (found : c.getProperty i = some q)
    (type : q.dataType = e.property.dataType) (offset : q.offset = e.property.offset)
    (done : c.writeValue s i value = .ok s') :
    ∃ v values', updatedValue q.dataType value = some v ∧ s'.offset = 3 ∧ s'.staticSize = n ∧
      grown s.buffer.length (textLength e.value) value = some s'.buffer.length ∧
      Contains all s'.buffer n values' ∧ ∀ name p v', Has values' name p v' ↔
        if name = e.name then p = e.property ∧ v' = v else Has values name p v' := by
  obtain ⟨before, after, rfl⟩ := List.mem_iff_append.mp mem
  obtain ⟨v, at_, new, start', size', length, contains'⟩ :=
    contains.writeValue laid start size found type offset done
  refine ⟨v, _, new, start', size', length, contains', fun name p v' => ?_⟩
  have apart := List.pairwise_append.mp contains.apart
  have other (x : StoredValue) (mem : x ∈ before ∨ x ∈ after) : x.name ≠ e.name := by
    rcases mem with mem | mem
    · exact (apart.2.2 x mem e List.mem_cons_self).name
    · exact ((List.pairwise_cons.mp apart.2.1).1 x mem).name.symm
  unfold Has
  simp only [List.mem_append, List.mem_cons]
  by_cases own : name = e.name
  · subst own
    rw [if_pos rfl]
    constructor
    · rintro ⟨at', mem | eq | mem⟩
      · exact absurd rfl (other ⟨e.name, p, v', at'⟩ (Or.inl mem))
      · cases eq
        exact ⟨rfl, rfl⟩
      · exact absurd rfl (other ⟨e.name, p, v', at'⟩ (Or.inr mem))
    · rintro ⟨rfl, rfl⟩
      exact ⟨at_, Or.inr (Or.inl rfl)⟩
  · rw [if_neg own]
    refine exists_congr fun at' => or_congr Iff.rfl (or_congr ?_ Iff.rfl)
    refine ⟨fun eq => absurd ?_ own, fun eq => absurd ?_ own⟩
    · exact congrArg StoredValue.name eq
    · exact congrArg StoredValue.name eq

/-! ## Objects that are opened again -/

/-- An object that is opened with fewer bytes in the static section keeps the values whose slots lie
in it. -/
theorem Contains.reopen (laid : ∀ c ∈ all, c.Laid) {m : Nat} (contains : Contains all b n values)
    (le : m ≤ n) : ∃ s, IsarSerializer.new b 0 m = some s ∧ s.offset = 3 ∧ s.staticSize = m ∧
      s.buffer.length = b.length ∧
      Contains all s.buffer m (values.filter fun e =>
        decide (e.property.offset + e.property.dataType.staticSize ≤ m)) := by
  have room := contains.room
  have small : m < 2 ^ 24 := lt_of_le_of_lt le contains.small
  have extended : zeroExtend b (0 + m + 3) = b := by
    unfold zeroExtend
    rw [Nat.sub_eq_zero_of_le (by omega), List.replicate_zero, List.append_nil]
  have space : 0 + (leBytes 3 m).length ≤ b.length := by
    rw [length_leBytes]
    omega
  obtain ⟨b', spliced⟩ := splice_isSome space
  have length := length_splice spliced
  have written : Native.writeU24 b 0 m = some b' := by
    rw [Native.writeU24, writeLe, if_pos (show m < 256 ^ 3 by omega)]
    exact spliced
  have same (lo hi : Nat) (behind : 3 ≤ lo) : AgreeOn b b' lo hi :=
    AgreeOn.splice spliced (Or.inr (by rw [length_leBytes]; exact behind))
  refine ⟨⟨b', 3, m⟩, ?_, rfl, rfl, length, ?_⟩
  · simp only [IsarSerializer.new, extended, written, Option.bind_eq_bind, Option.bind_some,
      Option.pure_def]
  · refine ⟨at_splice spliced, small, by show 3 + m ≤ b'.length; omega, ?_,
      contains.apart.sublist List.filter_sublist⟩
    intro e mem
    obtain ⟨mem, slot⟩ := List.mem_filter.mp mem
    have stands := contains.stands e mem
    have behind := stands.behind
    have inside := stands.inside
    refine ⟨of_decide_eq_true slot, stands.typed, stands.fits, ?_, by omega, by
      show _ ≤ b'.length
      omega⟩
    exact stands.holds.congr laid stands.typed (same _ _ (by omega)) (same _ _ (by omega)) length.ge

theorem isStatic_of_dynamicSize {p : NativeProperty} {v : Written} (typed : Typed all p v)
    (flat : dynamicSize all p v = 0) : IsStatic v := by
  cases v with
  | string _ | byteList _ =>
    simp only [dynamicSize] at flat
    omega
  | object _ =>
    obtain ⟨-, -, c, target, -⟩ := typed
    simp only [dynamicSize, target] at flat
    omega
  | list _ _ =>
    obtain ⟨-, t, elements, -⟩ := typed
    simp only [dynamicSize, elements] at flat
    omega
  | _ => trivial

/-- A value that has no dynamic bytes stands wherever its slot does. -/
theorem StoredValue.Stands.move (laid : ∀ c ∈ all, c.Laid) {m : Nat} (stands : e.Stands all b n)
    (flush : b.length = 3 + n) (same : AgreeOn b b' 3 (3 + n)) (le : n ≤ m)
    (room : 3 + m ≤ b'.length) : StoredValue.Stands all b' m { e with at_ := 3 + m } := by
  have slot := stands.slot
  have behind := stands.behind
  have inside := stands.inside
  unfold StoredValue.end_ at inside
  have flat : dynamicSize all e.property e.value = 0 := by omega
  have static_ := isStatic_of_dynamicSize stands.typed flat
  have holds := stands.holds.congr laid stands.typed (same.mono (by omega) (by omega))
    (fun i low high => by omega) (show b.length ≤ b'.length by omega)
  refine ⟨slot.trans le, stands.typed, ?_, ?_, le_rfl, ?_⟩
  · cases value : e.value <;> rw [value] at static_ <;> first
      | exact trivial
      | cases static_
  · show Holds all b' 3 (3 + m) e.property e.value
    cases value : e.value <;> rw [value] at static_ holds <;> first
      | exact holds
      | cases static_
  · show 3 + m + dynamicSize all e.property e.value ≤ b'.length
    omega

/-- An object without dynamic bytes that is opened with more bytes in the static section keeps its
values, and behind them there are zeros. -/
theorem Contains.extend (laid : ∀ c ∈ all, c.Laid) {m : Nat} (contains : Contains all b n values)
    (flush : b.length = 3 + n) (le : n ≤ m) (small : m < 2 ^ 24) :
    ∃ s, IsarSerializer.new b 0 m = some s ∧ s.offset = 3 ∧ s.staticSize = m ∧
      s.buffer.length = 3 + m ∧ At s.buffer 0 (leBytes 3 m) ∧
      At s.buffer (3 + n) (List.replicate (m - n) 0) ∧
      ∀ e ∈ values, StoredValue.Stands all s.buffer m { e with at_ := 3 + m } := by
  have extended : zeroExtend b (0 + m + 3) = b ++ List.replicate (m - n) 0 := by
    unfold zeroExtend
    congr 2
    omega
  have space : 0 + (leBytes 3 m).length ≤ (b ++ List.replicate (m - n) (0 : UInt8)).length := by
    rw [length_leBytes, List.length_append]
    omega
  obtain ⟨b', spliced⟩ := splice_isSome space
  have length : b'.length = 3 + m := by
    rw [length_splice spliced, List.length_append, List.length_replicate]
    omega
  have written : Native.writeU24 (b ++ List.replicate (m - n) 0) 0 m = some b' := by
    rw [Native.writeU24, writeLe, if_pos (show m < 256 ^ 3 by omega)]
    exact spliced
  have behind (lo hi : Nat) (low : 3 ≤ lo) : AgreeOn (b ++ List.replicate (m - n) 0) b' lo hi :=
    AgreeOn.splice spliced (Or.inr (by rw [length_leBytes]; exact low))
  have zeros : At (b ++ List.replicate (m - n) 0) (3 + n) (List.replicate (m - n) (0 : UInt8)) := by
    have stands := at_append_right b (List.replicate (m - n) (0 : UInt8)) []
    rwa [List.append_nil, flush] at stands
  refine ⟨⟨b', 3, m⟩, ?_, rfl, rfl, length, at_splice spliced, ?_, fun e mem => ?_⟩
  · simp only [IsarSerializer.new, extended, written, Option.bind_eq_bind, Option.bind_some,
      Option.pure_def]
  · refine zeros.congr (behind _ _ (by omega)) ?_
    rw [List.length_replicate]
    show 3 + n + (m - n) ≤ b'.length
    omega
  · refine (contains.stands e mem).move laid flush ?_ le length.ge
    exact (agreeOn_append b _ (by omega)).trans (behind 3 (3 + n) le_rfl)

/-! ## Lists of updates -/

theorem lastUpdate_cons (u : UInt16 × Option IsarValue) (updates : List (UInt16 × Option IsarValue))
    (i : UInt16) : lastUpdate (u :: updates) i =
      (lastUpdate updates i).or (if u.1 = i then some u.2 else none) := by
  unfold lastUpdate
  rw [List.reverse_cons, List.find?_append, Option.map_or]
  by_cases own : u.1 = i <;> simp [own]

/-- A value goes by one name. -/
theorem Contains.has_unique (contains : Contains all b n values) (mem : e ∈ values)
    {p : NativeProperty} {v : Written} (has : Has values e.name p v) :
    p = e.property ∧ v = e.value := by
  obtain ⟨at_, there⟩ := has
  by_cases same : (⟨e.name, p, v, at_⟩ : StoredValue) = e
  · exact ⟨congrArg StoredValue.property same, congrArg StoredValue.value same⟩
  · have symmetric : Std.Symm fun e e' : StoredValue => e.Apart all e' := ⟨fun _ _ h => h.symm⟩
    exact absurd rfl (contains.apart.forall there mem same).name

/-- A property of a collection, by its name and an index of 16 bits. -/
def Names (c : NativeCollection) (i : UInt16) (name : String) (q : NativeProperty) : Prop :=
  i ≠ 0 ∧ c.properties[i.toNat - 1]? = some (name, q)

theorem Names.injective {c : NativeCollection} (names : (c.properties.map Prod.fst).Nodup)
    {i j : UInt16} {name : String} {q q' : NativeProperty} (h : Names c i name q)
    (h' : Names c j name q') : i = j ∧ q = q' := by
  have lt := (List.getElem?_eq_some_iff.mp h.2).1
  have there : (c.properties.map Prod.fst)[i.toNat - 1]? = some name := by
    rw [List.getElem?_map, h.2]
    rfl
  have there' : (c.properties.map Prod.fst)[j.toNat - 1]? = some name := by
    rw [List.getElem?_map, h'.2]
    rfl
  have same : i.toNat - 1 = j.toNat - 1 :=
    (List.getElem?_inj (by rwa [List.length_map]) names).mp (there.trans there'.symm)
  have positive : i.toNat ≠ 0 := fun eq => h.1 (UInt16.toNat_inj.mp eq)
  have positive' : j.toNat ≠ 0 := fun eq => h'.1 (UInt16.toNat_inj.mp eq)
  obtain rfl : i = j := UInt16.toNat_inj.mp (by omega)
  cases h.2.symm.trans h'.2
  exact ⟨rfl, rfl⟩

theorem getProperty_eq_some {c : NativeCollection} {i : UInt16} {q : NativeProperty} :
    c.getProperty i = some q ↔ ∃ name, Names c i name q := by
  unfold NativeCollection.getProperty Names
  split
  · rename_i positive
    rw [Option.map_eq_some_iff]
    constructor
    · rintro ⟨⟨name, _⟩, there, rfl⟩
      exact ⟨name, positive, there⟩
    · rintro ⟨name, -, there⟩
      exact ⟨(name, q), there, rfl⟩
  · rename_i zero
    simp [not_ne_iff.mp zero]

/-- Every property of the collection has a value. -/
def Covers (c : NativeCollection) (values : List StoredValue) : Prop :=
  ∀ i name q, Names c i name q → ∃ p v, Has values name p v ∧ q.dataType = p.dataType ∧
    q.offset = p.offset

/-- What a list of updates leaves of the values. -/
def Rewritten (c : NativeCollection) (updates : List (UInt16 × Option IsarValue))
    (values values' : List StoredValue) : Prop :=
  ∀ name p v, Has values name p v → ∃ v', Has values' name p v' ∧
    (v' = v ∨ ∃ t value, updatedValue t value = some v') ∧
    ∀ i q, Names c i name q → Updated updates i q.dataType v v'

/-- The extent of an object with these values. -/
structure Measures (c : NativeCollection) (e : Extent) (length : Nat) (values : List StoredValue) :
    Prop where
  length : e.length = length
  texts : ∀ i name q p v, Names c i name q → Has values name p v → e.texts i = textLength v

theorem textLength_of_updated {t : DataType} {value : Option IsarValue} {v : Written}
    (new : updatedValue t value = some v) : textLength v = updatedLength value := by
  cases value with
  | none =>
    obtain rfl : Written.null = v := by
      unfold updatedValue at new
      exact Option.some.inj new
    rfl
  | some value => cases value <;> cases t <;> cases new <;> rfl

theorem Extent.update_eq_some {x x' : Extent} {u : UInt16 × Option IsarValue} :
    x.update u = some x' ↔ grown x.length (x.texts u.1) u.2 = some x'.length ∧
      x'.texts = Function.update x.texts u.1 (updatedLength u.2) := by
  unfold Extent.update
  rw [Option.bind_eq_bind, Option.bind_eq_some_iff]
  constructor
  · rintro ⟨length, room, made⟩
    cases made
    exact ⟨room, rfl⟩
  · rintro ⟨room, texts⟩
    refine ⟨_, room, ?_⟩
    rw [← texts]
    rfl

/-- What one update leaves of all values. -/
theorem Contains.writeValue_all (laid : ∀ c ∈ all, c.Laid) {c : NativeCollection}
    (names : (c.properties.map Prod.fst).Nodup) {s s' : IsarSerializer} {i : UInt16}
    {value : Option IsarValue} (start : s.offset = 3) (size : s.staticSize = n)
    (contains : Contains all s.buffer n values) (covers : Covers c values)
    (done : c.writeValue s i value = .ok s') :
    ∃ name q v values', Names c i name q ∧ updatedValue q.dataType value = some v ∧
      s'.offset = 3 ∧ s'.staticSize = n ∧ Contains all s'.buffer n values' ∧ Covers c values' ∧
      (∀ name' p' v', Has values name' p' v' → ∃ v₁, Has values' name' p' v₁ ∧
        (name' = name → v₁ = v) ∧ (name' ≠ name → v₁ = v')) ∧
      ∀ x, Measures c x s.buffer.length values →
        ∃ x', x.update (i, value) = some x' ∧ Measures c x' s'.buffer.length values' := by
  obtain ⟨q, v, found, -⟩ := exists_updatedValue done
  obtain ⟨name, named⟩ := getProperty_eq_some.mp found
  obtain ⟨p, old, ⟨at_, mem⟩, type, offset⟩ := covers i name q named
  obtain ⟨v, values₁, new, start₁, size₁, length, contains₁, has₁⟩ :=
    contains.update laid start size mem found type offset done
  have keeps (name' : String) (p' : NativeProperty) (v' : Written)
      (has : Has values name' p' v') : ∃ v₁, Has values₁ name' p' v₁ ∧
        (name' = name → v₁ = v) ∧ (name' ≠ name → v₁ = v') := by
    by_cases own : name' = name
    · subst own
      obtain ⟨rfl, -⟩ := contains.has_unique mem has
      exact ⟨v, (has₁ name' _ v).mpr (by rw [if_pos rfl]; exact ⟨rfl, rfl⟩), fun _ => rfl,
        fun other => absurd rfl other⟩
    · exact ⟨v', (has₁ name' p' v').mpr (by rwa [if_neg own]), fun eq => absurd eq own,
        fun _ => rfl⟩
  refine ⟨name, q, v, values₁, named, new, start₁, size₁, contains₁, ?_, keeps, ?_⟩
  · intro j name' q' named'
    obtain ⟨p', v', has, same⟩ := covers j name' q' named'
    obtain ⟨v₁, has₁, -⟩ := keeps name' p' v' has
    exact ⟨p', v₁, has₁, same⟩
  · intro x measures
    refine ⟨⟨s'.buffer.length, Function.update x.texts i (updatedLength value)⟩,
      Extent.update_eq_some.mpr ⟨?_, rfl⟩, rfl, ?_⟩
    · have text := measures.texts i name q p old named ⟨at_, mem⟩
      simp only [measures.length, text]
      exact length
    · intro j name' q' p' v' named' has
      have has := (has₁ name' p' v').mp has
      simp only at has ⊢
      split at has
      · rename_i same
        subst same
        obtain ⟨-, rfl⟩ := has
        obtain ⟨rfl, -⟩ := named.injective names named'
        rw [Function.update_self, textLength_of_updated new]
      · rename_i other
        have ne : j ≠ i := by
          rintro rfl
          have there := named'.2
          rw [named.2] at there
          cases there
          exact other rfl
        rw [Function.update_of_ne ne]
        exact measures.texts j name' q' p' v' named' has

/-- One update after the other writes the values of the properties that are named, and no other. -/
theorem Contains.foldlM_writeValue (laid : ∀ c ∈ all, c.Laid) {c : NativeCollection}
    (names : (c.properties.map Prod.fst).Nodup) {s s' : IsarSerializer}
    {updates : List (UInt16 × Option IsarValue)} (start : s.offset = 3) (size : s.staticSize = n)
    (contains : Contains all s.buffer n values) (covers : Covers c values)
    (done : updates.foldlM (fun object u => c.writeValue object u.1 u.2) s = .ok s') :
    ∃ values', Contains all s'.buffer n values' ∧ Rewritten c updates values values' ∧
      ∀ x, Measures c x s.buffer.length values → ∃ x', updates.foldlM Extent.update x = some x' ∧
        Measures c x' s'.buffer.length values' := by
  induction updates generalizing s values with
  | nil =>
    cases pure_eq_ok.mp done
    exact ⟨values, contains, fun name p v has => ⟨v, has, Or.inl rfl, fun _ _ _ => rfl⟩,
      fun x measures => ⟨x, rfl, measures⟩⟩
  | cons u updates ih =>
    obtain ⟨i, value⟩ := u
    rw [List.foldlM_cons] at done
    obtain ⟨s₁, first, rest⟩ := bind_eq_ok.mp done
    obtain ⟨name, q, v, values₁, named, new, start₁, size₁, contains₁, covers₁, keeps, measured⟩ :=
      contains.writeValue_all laid names start size covers first
    obtain ⟨values', contains', rewritten, measured'⟩ := ih start₁ size₁ contains₁ covers₁ rest
    refine ⟨values', contains', fun name' p' v' has => ?_, fun x measures => ?_⟩
    · obtain ⟨v₁, has₁, own, other⟩ := keeps name' p' v' has
      obtain ⟨v₂, has₂, made, last⟩ := rewritten name' p' v₁ has₁
      refine ⟨v₂, has₂, ?_, fun j q' named' => ?_⟩
      · rcases made with rfl | made
        · by_cases same : name' = name
          · rw [own same]
            exact Or.inr ⟨q.dataType, value, new⟩
          · exact Or.inl (other same)
        · exact Or.inr made
      have last := last j q' named'
      unfold Updated at last ⊢
      rw [lastUpdate_cons]
      cases later : lastUpdate updates j with
      | some w =>
        rw [later] at last
        exact last
      | none =>
        rw [later] at last
        simp only [Option.none_or] at last ⊢
        by_cases same : name' = name
        · subst same
          obtain ⟨rfl, rfl⟩ := named.injective names named'
          rw [if_pos rfl, last, own rfl]
          exact new
        · have ne : i ≠ j := by
            rintro rfl
            have there := named'.2
            rw [named.2] at there
            cases there
            exact same rfl
          rw [if_neg ne, last, other same]
    · obtain ⟨x₁, eq, measures₁⟩ := measured x measures
      obtain ⟨x', later, measures'⟩ := measured' x₁ measures₁
      refine ⟨x', ?_, measures'⟩
      rw [List.foldlM_cons, eq]
      exact later

/-- Updates of the right types succeed while the extent has room for them. -/
theorem Contains.exists_foldlM_writeValue (laid : ∀ c ∈ all, c.Laid) {c : NativeCollection}
    (names : (c.properties.map Prod.fst).Nodup) {s : IsarSerializer}
    {updates : List (UInt16 × Option IsarValue)} (start : s.offset = 3) (size : s.staticSize = n)
    (contains : Contains all s.buffer n values) (covers : Covers c values) {x : Extent}
    (measures : Measures c x s.buffer.length values)
    (typed : ∀ u ∈ updates, ∃ q v, c.getProperty u.1 = some q ∧
      updatedValue q.dataType u.2 = some v)
    (room : (updates.foldlM Extent.update x).isSome) :
    ∃ s', updates.foldlM (fun object u => c.writeValue object u.1 u.2) s = .ok s' := by
  induction updates generalizing s values x with
  | nil => exact ⟨s, rfl⟩
  | cons u updates ih =>
    obtain ⟨⟨q, v, found, new⟩, typed⟩ := List.forall_mem_cons.mp typed
    rw [List.foldlM_cons, Option.bind_eq_bind, Option.isSome_bind, Option.any_eq_true] at room
    obtain ⟨x₁, eq, room⟩ := room
    obtain ⟨name, named⟩ := getProperty_eq_some.mp found
    obtain ⟨p, old, ⟨at_, mem⟩, type, offset⟩ := covers u.1 name q named
    have fits := (Extent.update_eq_some.mp eq).1
    rw [measures.length, measures.texts u.1 name q p old named ⟨at_, mem⟩] at fits
    obtain ⟨before, after, split⟩ := List.mem_iff_append.mp mem
    have parts := contains
    rw [split] at parts
    obtain ⟨s₁, first⟩ := parts.exists_writeValue laid start size found type offset new
      (Option.isSome_iff_exists.mpr ⟨_, fits⟩)
    obtain ⟨-, -, -, values₁, -, -, start₁, size₁, contains₁, covers₁, -, measured⟩ :=
      contains.writeValue_all laid names start size covers first
    obtain ⟨x₁', eq', measures₁⟩ := measured x measures
    cases eq.symm.trans eq'
    obtain ⟨s', rest⟩ := ih start₁ size₁ contains₁ covers₁ measures₁ typed room
    refine ⟨s', ?_⟩
    rw [List.foldlM_cons, first]
    exact rest

end

end IsarPlus.Native
