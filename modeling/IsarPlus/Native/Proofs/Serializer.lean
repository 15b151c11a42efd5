import IsarPlus.Native.Serializer

/-!
# What the calls of a serializer write

Every call of an open serializer touches one slot of its static section and appends to the buffer.
-/

namespace IsarPlus.Native
open ByteBuffer Scalar

namespace IsarSerializer

/-- The static section lies in the buffer. -/
def Open (s : IsarSerializer) : Prop := s.offset + s.staticSize ≤ s.buffer.length

/-- `s'` comes from `s` by appending `n` bytes; of the old bytes only those from `lo` to `hi` may
have changed. -/
structure Wrote (s s' : IsarSerializer) (lo hi n : Nat) : Prop where
  offset : s'.offset = s.offset
  staticSize : s'.staticSize = s.staticSize
  length : s'.buffer.length = s.buffer.length + n
  before : AgreeOn s.buffer s'.buffer 0 lo
  after : AgreeOn s.buffer s'.buffer hi s.buffer.length

theorem Wrote.refl (s : IsarSerializer) (lo hi : Nat) : Wrote s s lo hi 0 :=
  ⟨rfl, rfl, rfl, .refl _ _ _, .refl _ _ _⟩

theorem Wrote.trans {s s' s'' : IsarSerializer} {lo hi n m : Nat} (h : Wrote s s' lo hi n)
    (h' : Wrote s' s'' lo hi m) : Wrote s s'' lo hi (n + m) where
  offset := h'.offset.trans h.offset
  staticSize := h'.staticSize.trans h.staticSize
  length := by
    have := h.length
    have := h'.length
    omega
  before := h.before.trans h'.before
  after := h.after.trans (h'.after.mono le_rfl (by have := h.length; omega))

/-- What is written behind the old end leaves the old bytes alone. -/
theorem Wrote.append {s s' s'' : IsarSerializer} {lo hi lo' hi' n m : Nat}
    (h : Wrote s s' lo hi n) (h' : Wrote s' s'' lo' hi' m) (below : lo ≤ s.buffer.length)
    (behind : s.buffer.length ≤ lo') : Wrote s s'' lo hi (n + m) where
  offset := h'.offset.trans h.offset
  staticSize := h'.staticSize.trans h.staticSize
  length := by
    have := h.length
    have := h'.length
    omega
  before := h.before.trans (h'.before.mono le_rfl (by omega))
  after := h.after.trans (h'.before.mono (Nat.zero_le _) behind)

theorem Wrote.mono {s s' : IsarSerializer} {lo hi lo' hi' n : Nat} (h : Wrote s s' lo hi n)
    (hl : lo' ≤ lo) (hh : hi ≤ hi') : Wrote s s' lo' hi' n :=
  ⟨h.offset, h.staticSize, h.length, h.before.mono le_rfl hl, h.after.mono hh le_rfl⟩

theorem Wrote.isOpen {s s' : IsarSerializer} {lo hi n : Nat} (h : Wrote s s' lo hi n)
    (hs : s.Open) : s'.Open := by
  unfold Open at *
  rw [h.offset, h.staticSize, h.length]
  omega

/-- Bytes outside the touched range stay where they are. -/
theorem Wrote.keeps {s s' : IsarSerializer} {lo hi n off : Nat} {bs : Bytes}
    (h : Wrote s s' lo hi n) (stands : At s.buffer off bs)
    (outside : off + bs.length ≤ lo ∨ hi ≤ off) : At s'.buffer off bs := by
  have bound := stands.bound
  have len := h.length
  rcases outside with left | right
  · exact stands.congr (h.before.mono (Nat.zero_le _) left) (by omega)
  · exact stands.congr (h.after.mono right bound) (by omega)

/-! ## Single slots -/

theorem write_spec {s : IsarSerializer} {offset : Nat} {bytes : Bytes}
    (bound : s.offset + offset + bytes.length ≤ s.buffer.length) :
    ∃ s', s.write offset bytes = some s' ∧
      Wrote s s' (s.offset + offset) (s.offset + offset + bytes.length) 0 ∧
      At s'.buffer (s.offset + offset) bytes := by
  rw [Nat.add_comm s.offset offset] at bound ⊢
  obtain ⟨b, hb⟩ := splice_isSome bound
  refine ⟨{ s with buffer := b }, by simp [write, hb], ⟨rfl, rfl, length_splice hb, ?_, ?_⟩,
    at_splice hb⟩
  · exact AgreeOn.splice hb (Or.inl le_rfl)
  · exact AgreeOn.splice hb (Or.inr le_rfl)

theorem writeStaticChecked_spec {s : IsarSerializer} {offset : Nat} {bytes : Bytes} (open_ : s.Open)
    (slot : offset + bytes.length ≤ s.staticSize) :
    ∃ s', s.writeStaticChecked offset bytes = some s' ∧
      Wrote s s' (s.offset + offset) (s.offset + offset + bytes.length) 0 ∧
      At s'.buffer (s.offset + offset) bytes := by
  rw [writeStaticChecked, if_pos slot]
  apply write_spec
  unfold Open at open_
  omega

/-- A number that does not fit three bytes panics. -/
theorem writeU24_eq_none {s : IsarSerializer} {offset value : Nat} (h : ¬ value < 2 ^ 24) :
    s.writeU24 offset value = none := by
  have large : ¬ value < 256 ^ 3 := h
  rw [writeU24, Native.writeU24, writeLe, if_neg large]
  rfl

theorem writeU24_eq_write {s : IsarSerializer} {offset value : Nat} (h : value < 2 ^ 24) :
    s.writeU24 offset value = s.write offset (leBytes 3 value) := by
  have small : value < 256 ^ 3 := h
  rw [writeU24, Native.writeU24, writeLe, if_pos small]
  rfl

theorem writeU24StaticChecked_eq_none {s : IsarSerializer} {offset value : Nat}
    (h : ¬ value < 2 ^ 24) : s.writeU24StaticChecked offset value = none := by
  unfold writeU24StaticChecked
  split
  · exact writeU24_eq_none h
  · rfl

theorem writeU24StaticChecked_spec {s : IsarSerializer} {offset value : Nat} (open_ : s.Open)
    (slot : offset + 3 ≤ s.staticSize) (small : value < 2 ^ 24) :
    ∃ s', s.writeU24StaticChecked offset value = some s' ∧
      Wrote s s' (s.offset + offset) (s.offset + offset + 3) 0 ∧
      At s'.buffer (s.offset + offset) (leBytes 3 value) := by
  rw [writeU24StaticChecked, if_pos slot, writeU24_eq_write small]
  have bound : s.offset + offset + (leBytes 3 value).length ≤ s.buffer.length := by
    unfold Open at open_
    rw [length_leBytes]
    omega
  simpa only [length_leBytes] using write_spec bound

theorem at_replicate_of_at {b : Bytes} {x : UInt8} {off n k m : Nat}
    (h : At b off (List.replicate n x)) (inside : k + m ≤ n) :
    At b (off + k) (List.replicate m x) := by
  have split : List.replicate n x =
      List.replicate k x ++ List.replicate m x ++ List.replicate (n - k - m) x := by
    simp only [List.replicate_append_replicate]
    congr 1
    omega
  rw [split] at h
  simpa only [List.length_replicate] using h.left.right

/-! ## Dynamic data -/

theorem length_zeroExtend (b : Bytes) (n : Nat) : (zeroExtend b n).length = max b.length n := by
  simp only [zeroExtend, List.length_append, List.length_replicate]
  omega

/-- `Vec::resize` to a larger size. -/
theorem wrote_zeroExtend (s : IsarSerializer) (n : Nat) {lo : Nat} (hi : Nat)
    (below : lo ≤ s.buffer.length) :
    Wrote s { s with buffer := zeroExtend s.buffer (s.buffer.length + n) } lo hi n where
  offset := rfl
  staticSize := rfl
  length := by
    show (zeroExtend _ _).length = _
    rw [length_zeroExtend]
    omega
  before := agreeOn_append _ _ below
  after := agreeOn_append _ _ le_rfl

/-- `write_dynamic`: the slot points to the end of the old buffer. -/
theorem writeDynamic_spec {s : IsarSerializer} {offset : Nat} {value : Bytes} (open_ : s.Open)
    (slot : offset + 3 ≤ s.staticSize) (near : s.buffer.length - s.offset < 2 ^ 24)
    (small : value.length < 2 ^ 24) :
    ∃ s', s.writeDynamic offset value = some s' ∧
      Wrote s s' (s.offset + offset) (s.offset + offset + 3) (3 + value.length) ∧
      At s'.buffer (s.offset + offset) (leBytes 3 (s.buffer.length - s.offset)) ∧
      At s'.buffer s.buffer.length (leBytes 3 value.length) ∧
      At s'.buffer (s.buffer.length + 3) value := by
  have end_ : s.offset ≤ s.buffer.length := by
    unfold Open at open_
    omega
  obtain ⟨s₁, eq₁, wrote₁, at₁⟩ := writeU24StaticChecked_spec open_ slot near
  have len₁ : s₁.buffer.length = s.buffer.length := wrote₁.length
  have start₁ : s₁.offset = s.offset := wrote₁.offset
  have below : s.offset + offset + 3 ≤ s.buffer.length := by
    unfold Open at open_
    omega
  let s₂ := { s₁ with buffer := zeroExtend s₁.buffer (s.buffer.length + value.length + 3) }
  have wrote₂ : Wrote s₁ s₂ s.buffer.length s.buffer.length (value.length + 3) := by
    have extended := wrote_zeroExtend s₁ (value.length + 3) s.buffer.length (Nat.le_of_eq len₁.symm)
    rwa [len₁, ← Nat.add_assoc] at extended
  have len₂ : s₂.buffer.length = s.buffer.length + value.length + 3 := by
    have := wrote₂.length
    omega
  have start₂ : s₂.offset + (s.buffer.length - s.offset) = s.buffer.length := by
    have := wrote₂.offset
    omega
  have room₃ : s₂.offset + (s.buffer.length - s.offset) + (leBytes 3 value.length).length ≤
      s₂.buffer.length := by
    rw [length_leBytes]
    omega
  obtain ⟨s₃, eq₃, wrote₃, at₃⟩ := write_spec room₃
  rw [start₂, length_leBytes] at wrote₃
  rw [start₂] at at₃
  have len₃ := wrote₃.length
  have start₃ : s₃.offset + (s.buffer.length - s.offset + 3) = s.buffer.length + 3 := by
    have := wrote₃.offset
    omega
  have room₄ : s₃.offset + (s.buffer.length - s.offset + 3) + value.length ≤ s₃.buffer.length := by
    omega
  obtain ⟨s₄, eq₄, wrote₄, at₄⟩ := write_spec room₄
  rw [start₃] at wrote₄ at₄
  have appended := (wrote₂.append wrote₃ (by omega) (by omega)).append wrote₄ (by omega) (by omega)
  refine ⟨s₄, ?_, ?_, ?_, ?_, at₄⟩
  · simp only [writeDynamic, eq₁, Option.bind_eq_bind, Option.bind_some]
    rw [show IsarSerializer.writeU24 _ _ _ = _ from (writeU24_eq_write small).trans eq₃]
    exact eq₄
  · have whole := wrote₁.append appended (by omega) (by omega)
    rwa [show 0 + (value.length + 3 + 0 + 0) = 3 + value.length by omega] at whole
  · exact appended.keeps at₁ (Or.inl (by rw [length_leBytes]; omega))
  · exact wrote₄.keeps at₃ (Or.inl (by rw [length_leBytes]))

/-- A distance or a length that does not fit three bytes panics. -/
theorem writeDynamic_eq_none {s : IsarSerializer} {offset : Nat} {value : Bytes}
    (h : ¬ (s.buffer.length - s.offset < 2 ^ 24 ∧ value.length < 2 ^ 24)) :
    s.writeDynamic offset value = none := by
  by_cases near : s.buffer.length - s.offset < 2 ^ 24
  · have large : ¬ value.length < 2 ^ 24 := fun small => h ⟨near, small⟩
    simp only [writeDynamic, Option.bind_eq_bind, writeU24_eq_none large, Option.bind_none,
      Option.bind_fun_none]
  · simp only [writeDynamic, writeU24StaticChecked_eq_none near, Option.bind_eq_bind,
      Option.bind_none]

/-! ## Nested objects -/

/-- A serializer that is opened behind the end of a buffer starts with zeros. -/
theorem new_append {b : Bytes} {staticSize : Nat} (small : staticSize < 2 ^ 24) :
    new b b.length staticSize =
      some { buffer := b ++ leBytes 3 staticSize ++ List.replicate staticSize 0
             offset := b.length + 3
             staticSize } := by
  have fits : staticSize < 256 ^ 3 := small
  have extended : zeroExtend b (b.length + staticSize + 3) =
      b ++ List.replicate (staticSize + 3) 0 := by
    rw [zeroExtend]
    congr 2
    omega
  have room : b.length + (leBytes 3 staticSize).length ≤
      (b ++ List.replicate (staticSize + 3) (0 : UInt8)).length := by
    simp
  have rest : (List.replicate (staticSize + 3) (0 : UInt8)).drop 3 = List.replicate staticSize 0 := by
    simp
  rw [new, extended, Native.writeU24, writeLe, if_pos fits, splice, if_pos room]
  simp [List.drop_append]

theorem new_eq_none {b : Bytes} {offset staticSize : Nat} (large : ¬ staticSize < 2 ^ 24) :
    new b offset staticSize = none := by
  have wide : ¬ staticSize < 256 ^ 3 := large
  rw [new, Native.writeU24, writeLe, if_neg wide]
  rfl

/-- `begin_nested`: the slot points to the header of the nested object, whose static section is
zero. -/
theorem beginNested_spec {s : IsarSerializer} {offset staticSize : Nat} (open_ : s.Open)
    (slot : offset + 3 ≤ s.staticSize) (near : s.buffer.length - s.offset < 2 ^ 24)
    (small : staticSize < 2 ^ 24) :
    ∃ nested, s.beginNested offset staticSize = some ({ s with buffer := [] }, nested) ∧
      Wrote s { s with buffer := nested.buffer } (s.offset + offset) (s.offset + offset + 3)
        (3 + staticSize) ∧
      nested.offset = s.buffer.length + 3 ∧ nested.staticSize = staticSize ∧
      At nested.buffer (s.offset + offset) (leBytes 3 (s.buffer.length - s.offset)) ∧
      At nested.buffer s.buffer.length (leBytes 3 staticSize) ∧
      At nested.buffer (s.buffer.length + 3) (List.replicate staticSize 0) := by
  obtain ⟨s₁, eq₁, wrote₁, at₁⟩ := writeU24StaticChecked_spec open_ slot near
  have len₁ : s₁.buffer.length = s.buffer.length := wrote₁.length
  have header : At (s₁.buffer ++ leBytes 3 staticSize ++ List.replicate staticSize 0)
      s₁.buffer.length (leBytes 3 staticSize) := at_append_right _ _ _
  have zeros : At (s₁.buffer ++ leBytes 3 staticSize ++ List.replicate staticSize 0)
      (s₁.buffer.length + 3) (List.replicate staticSize 0) := by
    have := at_append_right (s₁.buffer ++ leBytes 3 staticSize) (List.replicate staticSize 0) []
    simpa using this
  rw [len₁] at header zeros
  have appended : Wrote s₁ { s₁ with
      buffer := s₁.buffer ++ leBytes 3 staticSize ++ List.replicate staticSize 0 }
      s.buffer.length s.buffer.length (3 + staticSize) := by
    refine ⟨rfl, rfl, by simp, ?_, ?_⟩
    · show AgreeOn s₁.buffer (s₁.buffer ++ _ ++ _) _ _
      rw [List.append_assoc]
      exact agreeOn_append _ _ (Nat.le_of_eq len₁.symm)
    · show AgreeOn s₁.buffer (s₁.buffer ++ _ ++ _) _ _
      rw [List.append_assoc]
      exact agreeOn_append _ _ le_rfl
  have below : s.offset + offset + 3 ≤ s.buffer.length := by
    unfold Open at open_
    omega
  have whole := wrote₁.append appended (by omega) le_rfl
  refine ⟨⟨s₁.buffer ++ leBytes 3 staticSize ++ List.replicate staticSize 0, s₁.buffer.length + 3,
    staticSize⟩, ?_, ?_, ?_, rfl, ?_, header, zeros⟩
  · have opened := new_append (b := s₁.buffer) small
    simp only [beginNested, eq₁, Option.bind_eq_bind, Option.bind_some]
    rw [← len₁, opened]
    simp only [Option.bind_some, Option.pure_def, wrote₁.offset, wrote₁.staticSize]
  · exact ⟨rfl, rfl, by simpa using whole.length, whole.before, whole.after⟩
  · exact congrArg (· + 3) len₁
  · exact appended.keeps at₁ (Or.inl (by rw [length_leBytes]; omega))

theorem open_nested {s nested : IsarSerializer} {lo hi staticSize : Nat}
    (wrote : Wrote s { s with buffer := nested.buffer } lo hi (3 + staticSize))
    (start : nested.offset = s.buffer.length + 3) (static_ : nested.staticSize = staticSize) :
    nested.Open ∧ nested.buffer.length = s.buffer.length + 3 + staticSize := by
  have len : nested.buffer.length = s.buffer.length + (3 + staticSize) := wrote.length
  unfold Open
  omega

/-- The nested serializer is open, behind what was written before. -/
theorem beginNested_open {s : IsarSerializer} {offset staticSize : Nat} (open_ : s.Open)
    (slot : offset + 3 ≤ s.staticSize) (near : s.buffer.length - s.offset < 2 ^ 24)
    (small : staticSize < 2 ^ 24) :
    ∃ nested, s.beginNested offset staticSize = some ({ s with buffer := [] }, nested) ∧
      nested.Open ∧ nested.offset = s.buffer.length + 3 ∧ nested.staticSize = staticSize ∧
      nested.buffer.length = s.buffer.length + 3 + staticSize := by
  obtain ⟨nested, begun, wrote, start, static_, -⟩ := beginNested_spec open_ slot near small
  obtain ⟨openN, len⟩ := open_nested wrote start static_
  exact ⟨nested, begun, openN, start, static_, len⟩

/-- A distance or a static size that does not fit three bytes panics. -/
theorem beginNested_eq_none {s : IsarSerializer} {offset staticSize : Nat}
    (h : ¬ (s.buffer.length - s.offset < 2 ^ 24 ∧ staticSize < 2 ^ 24)) :
    s.beginNested offset staticSize = none := by
  by_cases near : s.buffer.length - s.offset < 2 ^ 24
  · have large : ¬ staticSize < 2 ^ 24 := fun small => h ⟨near, small⟩
    simp only [beginNested, Option.bind_eq_bind, new_eq_none large, Option.bind_none,
      Option.bind_fun_none]
  · simp only [beginNested, writeU24StaticChecked_eq_none near, Option.bind_eq_bind,
      Option.bind_none]

/-! ## Calls that succeed -/

theorem staticSize_of_write {s s' : IsarSerializer} {offset : Nat} {bytes : Bytes}
    (h : s.write offset bytes = some s') : s'.staticSize = s.staticSize := by
  obtain ⟨b, -, eq⟩ := Option.bind_eq_some_iff.mp h
  cases eq
  rfl

theorem of_writeStaticChecked {s s' : IsarSerializer} {offset : Nat} {bytes : Bytes}
    (h : s.writeStaticChecked offset bytes = some s') :
    s'.staticSize = s.staticSize ∧ offset + bytes.length ≤ s.staticSize := by
  unfold writeStaticChecked at h
  split at h
  · exact ⟨staticSize_of_write h, ‹_›⟩
  · cases h

theorem staticSize_of_writeU24 {s s' : IsarSerializer} {offset value : Nat}
    (h : s.writeU24 offset value = some s') : s'.staticSize = s.staticSize := by
  obtain ⟨b, -, eq⟩ := Option.bind_eq_some_iff.mp h
  cases eq
  rfl

theorem of_writeU24StaticChecked {s s' : IsarSerializer} {offset value : Nat}
    (h : s.writeU24StaticChecked offset value = some s') :
    s'.staticSize = s.staticSize ∧ offset + 3 ≤ s.staticSize := by
  unfold writeU24StaticChecked at h
  split at h
  · exact ⟨staticSize_of_writeU24 h, ‹_›⟩
  · cases h

theorem of_writeDynamic {s s' : IsarSerializer} {offset : Nat} {value : Bytes}
    (h : s.writeDynamic offset value = some s') :
    s'.staticSize = s.staticSize ∧ offset + 3 ≤ s.staticSize := by
  obtain ⟨s₁, eq₁, h⟩ := Option.bind_eq_some_iff.mp h
  obtain ⟨s₂, eq₂, h⟩ := Option.bind_eq_some_iff.mp h
  obtain ⟨same, slot⟩ := of_writeU24StaticChecked eq₁
  exact ⟨(staticSize_of_write h).trans ((staticSize_of_writeU24 eq₂).trans same), slot⟩

theorem of_beginNested {s outer nested : IsarSerializer} {offset staticSize : Nat}
    (h : s.beginNested offset staticSize = some (outer, nested)) :
    outer.staticSize = s.staticSize ∧ nested.staticSize = staticSize ∧
      offset + 3 ≤ s.staticSize := by
  obtain ⟨s₁, eq₁, h⟩ := Option.bind_eq_some_iff.mp h
  obtain ⟨nested', opened, h⟩ := Option.bind_eq_some_iff.mp h
  obtain ⟨same, slot⟩ := of_writeU24StaticChecked eq₁
  obtain ⟨b, -, eq⟩ := Option.bind_eq_some_iff.mp opened
  cases eq
  cases h
  exact ⟨same, rfl, slot⟩

end IsarSerializer

end IsarPlus.Native
