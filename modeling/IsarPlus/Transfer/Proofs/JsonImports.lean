import IsarPlus.Native.Proofs.IndexHistory
import IsarPlus.Transfer.Proofs.JsonVisits
import IsarPlus.Transfer.Proofs.PlannedWrites
import IsarPlus.Native.Proofs.WrittenObjects

/-!
# Imported documents

An import writes and saves the objects of a document one after the other: the chunks in which it does
so leave no trace. What is stored under their ids then shows the document.
-/

namespace IsarPlus.Native
open ByteBuffer OrderedStore SecondaryIndex
open Sqlite (Written)

namespace NativeCollection

variable {xxh3_64 : Bytes → UInt64} {messages : JsonMessages} {strToId : List Char → Int64}
  {all : List NativeCollection} {c : NativeCollection} {txn txn' : NativeTxn}

theorem split_of_forall₂_append {α β : Type} {R : α → β → Prop} {l l' : List α} {r : List β}
    (h : List.Forall₂ R (l ++ l') r) :
    ∃ a b, List.Forall₂ R l a ∧ List.Forall₂ R l' b ∧ r = a ++ b := by
  have first := List.forall₂_take l.length h
  have second := List.forall₂_drop l.length h
  rw [List.take_left] at first
  rw [List.drop_left] at second
  exact ⟨_, _, first, second, (List.take_append_drop l.length r).symm⟩

/-! ## Sequences of saves -/

/-- The saves of an import. -/
abbrev saveOperations (saves : List (Int64 × Bytes)) : List Operation :=
  saves.map fun saved => .save saved.1 saved.2

theorem run_append {operations operations' : List Operation} :
    c.run xxh3_64 txn (operations ++ operations') = .ok txn' ↔
      ∃ txn₁, c.run xxh3_64 txn operations = .ok txn₁ ∧
        c.run xxh3_64 txn₁ operations' = .ok txn' := by
  unfold NativeCollection.run
  rw [List.foldlM_append]
  exact bind_eq_ok

/-- A save goes through to the object of the collection. -/
theorem db_of_perform_save {id : Int64} {object : Bytes}
    (h : c.perform xxh3_64 txn (.save id object) = .ok txn') : ∃ db, c.db = some db := by
  simp only [perform, saveObject] at h
  split at h
  · simp at h
  · simp only [put, bind_eq_ok, cursorDb_eq_ok] at h
    obtain ⟨db, hdb, -⟩ := h
    exact ⟨db, hdb⟩

theorem save_eq_ok {insert : NativeInsert} {id : Int64} {after : NativeTxn × NativeInsert}
    (small : Fits24 c.staticSize) (todo : 0 < insert.remaining) :
    c.save xxh3_64 txn insert id = .ok after ↔
      ∃ txn', c.perform xxh3_64 txn (.save id insert.object.finish) = .ok txn' ∧
        after = (txn', ⟨insert.remaining - 1, c.newObject⟩) := by
  have reset : IsarSerializer.new [] 0 c.staticSize = some c.newObject := by
    obtain ⟨object, new, eq⟩ := Option.bind_eq_some_iff.mp (newInsert_eq 0 small)
    cases eq
    exact new
  unfold save
  rw [if_pos todo, reset]
  simp only [bind_eq_ok, orPanic_eq_ok, pure_eq_ok, perform]
  constructor
  · rintro ⟨txn', done, object, eq, rfl⟩
    cases eq
    exact ⟨txn', done, rfl⟩
  · rintro ⟨txn', done, rfl⟩
    exact ⟨txn', done, _, rfl, rfl⟩

/-! ## Chunks -/

section
variable (few : ∀ c ∈ all, c.properties.length < 2 ^ 16) (embeds : AllEmbeds all) (mem : c ∈ all)
include few embeds mem

/-- One object is written and saved. -/
theorem importObject_eq_ok (small : Fits24 c.staticSize) {source : Source} (plain : Plain source)
    {k : Nat} {after : NativeTxn × NativeInsert} :
    Inserts.importObject messages strToId (c.inserts xxh3_64 all) (txn, ⟨k + 1, c.newObject⟩) source =
        .ok after ↔
      ∃ saved txn', c.WrittenAs all strToId source saved ∧
        c.perform xxh3_64 txn (.save saved.1 saved.2) = .ok txn' ∧
        after = (txn', ⟨k, c.newObject⟩) := by
  cases source with
  | object raw entries =>
    have visit (id' : Option Int64) (W' : NativeWriter) :
        visitMap messages strToId (⟨all, c.idName, .object c, c.newObject⟩ : NativeWriter) none
            entries = .ok (id', W') ↔ _ := visitMap_eq_ok few embeds mem plain.2
    simp only [Inserts.importObject]
    constructor
    · intro done
      obtain ⟨⟨id, W'⟩, visited, done⟩ := bind_eq_ok.mp done
      obtain ⟨writes, plan, found, wrote⟩ := (visit id W').mp visited
      obtain ⟨s, written, rfl⟩ := NativeWriter.wrote_eq_ok.mp wrote
      cases id with
      | none => cases done
      | some id =>
        have done : c.save xxh3_64 txn ⟨k + 1, s⟩ id = .ok after := done
        obtain ⟨txn', saved, rfl⟩ := (save_eq_ok small (Nat.succ_pos k)).mp done
        refine ⟨(id, s.finish), txn', ⟨raw, entries, writes, ⟨1, s⟩, rfl, plan, found, ?_, rfl⟩, saved,
          rfl⟩
        rw [writeObject_eq small, written, Option.map_some]
    · rintro ⟨saved, txn', ⟨raw', entries', writes, insert, eq, plan, found, written, bytes⟩, done,
        rfl⟩
      cases eq
      rw [writeObject_eq small] at written
      obtain ⟨s, wrote, rfl⟩ := Option.map_eq_some_iff.mp written
      have visited := (visit (some saved.1) ⟨all, c.idName, .object c, s⟩).mpr
        ⟨writes, plan, found, NativeWriter.wrote_eq_ok.mpr ⟨s, wrote, rfl⟩⟩
      refine bind_eq_ok.mpr ⟨_, visited, ?_⟩
      rw [bytes] at done
      show c.save xxh3_64 txn ⟨k + 1, s⟩ saved.1 = .ok (txn', ⟨k, c.newObject⟩)
      exact (save_eq_ok small (Nat.succ_pos k)).mpr ⟨txn', done, rfl⟩
  | _ =>
    constructor
    · intro done
      cases done
    · rintro ⟨saved, txn', ⟨raw, entries, writes, insert, eq, -⟩, -⟩
      cases eq

/-- The loop over the objects of a chunk; the insert still waits for as many as are to come. -/
theorem foldlM_importObject_eq_ok (small : Fits24 c.staticSize) {objects : List Source}
    (plain : ∀ source ∈ objects, Plain source) {k : Nat} {after : NativeTxn × NativeInsert} :
    objects.foldlM (Inserts.importObject messages strToId (c.inserts xxh3_64 all))
        (txn, ⟨objects.length + k, c.newObject⟩) = .ok after ↔
      ∃ saves txn', List.Forall₂ (c.WrittenAs all strToId) objects saves ∧
        c.run xxh3_64 txn (saveOperations saves) = .ok txn' ∧ after = (txn', ⟨k, c.newObject⟩) := by
  induction objects generalizing txn with
  | nil =>
    rw [List.length_nil, Nat.zero_add]
    constructor
    · intro done
      cases done
      exact ⟨[], txn, .nil, rfl, rfl⟩
    · rintro ⟨saves, txn', written, done, rfl⟩
      cases written
      cases done
      rfl
  | cons source objects ih =>
    have one (after : NativeTxn × NativeInsert) :=
      @importObject_eq_ok xxh3_64 messages strToId all c txn few embeds mem small source
        (plain source List.mem_cons_self) (objects.length + k) after
    have rest (source : Source) (mem : source ∈ objects) : Plain source :=
      plain source (List.mem_cons_of_mem _ mem)
    rw [List.length_cons, Nat.add_right_comm, List.foldlM_cons, bind_eq_ok]
    constructor
    · rintro ⟨between, first, done⟩
      obtain ⟨saved, txn₁, written, performed, rfl⟩ := (one between).mp first
      obtain ⟨saves, txn', others, ran, rfl⟩ := (ih rest).mp done
      exact ⟨saved :: saves, txn', .cons written others, bind_eq_ok.mpr ⟨txn₁, performed, ran⟩, rfl⟩
    · rintro ⟨saves, txn', written, done, rfl⟩
      obtain ⟨saved, saves, first, others, rfl⟩ := List.forall₂_cons_left_iff.mp written
      obtain ⟨txn₁, performed, done⟩ := bind_eq_ok.mp done
      exact ⟨_, (one _).mpr ⟨saved, txn₁, first, performed, rfl⟩,
        (ih rest).mpr ⟨saves, txn', others, done, rfl⟩⟩

/-- A chunk with an object in it. -/
theorem importObjects_eq_ok {objects : List Source} (some_ : objects ≠ [])
    (few_ : objects.length < 2 ^ 32) (plain : ∀ source ∈ objects, Plain source) :
    Inserts.importObjects messages strToId (c.inserts xxh3_64 all) txn objects = .ok txn' ↔
      ∃ saves, List.Forall₂ (c.WrittenAs all strToId) objects saves ∧
        c.run xxh3_64 txn (saveOperations saves) = .ok txn' := by
  have count : (UInt32.ofNat objects.length).toNat = objects.length + 0 :=
    UInt32.toNat_ofNat_of_lt' few_
  unfold Inserts.importObjects
  by_cases small : Fits24 c.staticSize
  · have loop (after : NativeTxn × NativeInsert) :=
      @foldlM_importObject_eq_ok xxh3_64 messages strToId all c txn few embeds mem small objects plain
        0 after
    constructor
    · intro done
      obtain ⟨insert, begun, done⟩ := bind_eq_ok.mp done
      obtain ⟨after, filled, done⟩ := bind_eq_ok.mp done
      obtain ⟨db, hdb, begun⟩ := bind_eq_ok.mp begun
      obtain ⟨new, created, begun⟩ := bind_eq_ok.mp begun
      rw [count, newInsert_eq _ small] at created
      cases created
      cases begun
      obtain ⟨saves, txn₁, written, ran, rfl⟩ := (loop after).mp filled
      cases done
      exact ⟨saves, written, ran⟩
    · rintro ⟨saves, written, ran⟩
      obtain ⟨source, objects, rfl⟩ := List.exists_cons_of_ne_nil some_
      obtain ⟨saved, others, -, -, rfl⟩ := List.forall₂_cons_left_iff.mp written
      obtain ⟨txn₁, first, -⟩ := bind_eq_ok.mp ran
      obtain ⟨db, hdb⟩ := db_of_perform_save first
      have begun : (c.inserts xxh3_64 all).insert txn (UInt32.ofNat (source :: objects).length) =
          .ok (txn, ⟨(source :: objects).length + 0, c.newObject⟩) := by
        refine bind_eq_ok.mpr ⟨db, cursorDb_eq_ok.mpr hdb, bind_eq_ok.mpr ⟨_, ?_, rfl⟩⟩
        rw [count, newInsert_eq _ small]
        rfl
      exact bind_eq_ok.mpr
        ⟨_, begun, bind_eq_ok.mpr ⟨_, (loop _).mpr ⟨_, txn', written, ran, rfl⟩, rfl⟩⟩
  · constructor
    · intro done
      obtain ⟨insert, begun, -⟩ := bind_eq_ok.mp done
      obtain ⟨db, hdb, begun⟩ := bind_eq_ok.mp begun
      obtain ⟨new, created, -⟩ := bind_eq_ok.mp begun
      rw [newInsert_eq_none small] at created
      cases created
    · rintro ⟨saves, written, -⟩
      obtain ⟨source, objects, rfl⟩ := List.exists_cons_of_ne_nil some_
      obtain ⟨saved, others, first, -, -⟩ := List.forall₂_cons_left_iff.mp written
      obtain ⟨raw, entries, writes, insert, -, -, -, written, -⟩ := first
      rw [writeObject, newInsert_eq_none small] at written
      cases written

/-- Chunks leave no trace: the objects that wait in the buffer and those to come are saved one after
the other. -/
theorem visitSeq_eq_ok {count : Nat} {buffer objects : List Source} {n : UInt32}
    (room : buffer.length < Inserts.bulkImportCount)
    (plain : ∀ source ∈ buffer ++ objects, Plain source) :
    Inserts.visitSeq messages strToId (c.inserts xxh3_64 all) txn count buffer objects =
        .ok (txn', n) ↔
      ∃ saves, List.Forall₂ (c.WrittenAs all strToId) (buffer ++ objects) saves ∧
        c.run xxh3_64 txn (saveOperations saves) = .ok txn' ∧
        n = UInt32.ofNat (count + (buffer ++ objects).length) := by
  induction objects generalizing txn count buffer with
  | nil =>
    rw [List.append_nil] at plain ⊢
    rw [Inserts.visitSeq]
    by_cases waits : buffer = []
    · subst waits
      rw [if_pos rfl]
      constructor
      · intro done
        cases done
        exact ⟨[], .nil, rfl, rfl⟩
      · rintro ⟨saves, written, ran, rfl⟩
        cases written
        cases ran
        rfl
    · rw [if_neg waits]
      have chunk (txn' : NativeTxn) :=
        @importObjects_eq_ok xxh3_64 messages strToId all c txn txn' few embeds mem buffer waits
          (room.trans (by decide)) plain
      constructor
      · intro done
        obtain ⟨txn₁, first, done⟩ := bind_eq_ok.mp done
        obtain ⟨saves, written, ran⟩ := (chunk txn₁).mp (JsonMessages.wrap_eq_ok.mp first)
        cases done
        exact ⟨saves, written, ran, rfl⟩
      · rintro ⟨saves, written, ran, rfl⟩
        exact bind_eq_ok.mpr
          ⟨txn', JsonMessages.wrap_eq_ok.mpr ((chunk txn').mpr ⟨saves, written, ran⟩), rfl⟩
  | cons next objects ih =>
    have shift : buffer ++ next :: objects = (buffer ++ [next]) ++ objects := by
      rw [List.append_assoc, List.singleton_append]
    rw [shift] at plain ⊢
    rw [Inserts.visitSeq]
    by_cases full : Inserts.bulkImportCount ≤ (buffer ++ [next]).length
    · rw [if_pos full]
      have width : (buffer ++ [next]).length < 2 ^ 32 := by
        rw [List.length_append, List.length_singleton]
        have : Inserts.bulkImportCount < 2 ^ 32 := by decide
        omega
      have chunk (txn₁ : NativeTxn) :=
        @importObjects_eq_ok xxh3_64 messages strToId all c txn txn₁ few embeds mem (buffer ++ [next])
          (by simp) width fun source listed => plain source (List.mem_append_left _ listed)
      have rest (txn₁ : NativeTxn) :=
        @ih txn₁ (count + (buffer ++ [next]).length) [] (by decide)
          fun source listed => plain source (List.mem_append_right _ listed)
      constructor
      · intro done
        obtain ⟨txn₁, first, done⟩ := bind_eq_ok.mp done
        obtain ⟨saves, written, ran⟩ := (chunk txn₁).mp (JsonMessages.wrap_eq_ok.mp first)
        obtain ⟨others, written', ran', rfl⟩ := (rest txn₁).mp done
        refine ⟨saves ++ others, List.rel_append written written', ?_, ?_⟩
        · rw [saveOperations, List.map_append]
          exact run_append.mpr ⟨txn₁, ran, ran'⟩
        · rw [List.nil_append, @List.length_append _ (buffer ++ [next]), Nat.add_assoc]
      · rintro ⟨saves, written, ran, rfl⟩
        obtain ⟨first, others, written₁, written₂, rfl⟩ := split_of_forall₂_append written
        rw [saveOperations, List.map_append] at ran
        obtain ⟨txn₁, ran₁, ran₂⟩ := run_append.mp ran
        refine bind_eq_ok.mpr
          ⟨txn₁, JsonMessages.wrap_eq_ok.mpr ((chunk txn₁).mpr ⟨first, written₁, ran₁⟩), ?_⟩
        refine (rest txn₁).mpr ⟨others, written₂, ran₂, ?_⟩
        rw [List.nil_append, @List.length_append _ (buffer ++ [next]), Nat.add_assoc]
    · rw [if_neg full]
      exact ih (Nat.not_le.mp full) plain

/-! ## What is shown -/

omit embeds in
/-- What is written of a document shows it. -/
theorem WrittenAs.imported {source : Source} {saved : Int64 × Bytes} (laid : ∀ c ∈ all, c.Laid)
    (plain : Plain source) (written : c.WrittenAs all strToId source saved) :
    c.ImportedAs all strToId source saved := by
  refine ⟨written, ?_⟩
  rintro raw entries rfl
  obtain ⟨raw', entries', writes, insert, eq, plan, -, done, bytes⟩ := written
  cases eq
  have plans := plannedMap_spec few (few c mem) plain.1 plain.2 plan
  have fits := objectFits_of_writeObject laid mem plans.typed done
  obtain ⟨_, again, -, encodes⟩ := writeObject_spec 1 laid mem plans.typed plans.nodup fits
  cases done.symm.trans again
  have shows := @Encodes.shows all c writes _ saved.1 laid few mem plans.typed plans.nodup fits encodes
  have same : c.writtenReader all saved.1 writes = c.importedReader all saved.1 entries :=
    congrArg (IsarReader.mk c.idName saved.1) (arranged_congr (few c mem) plans.shows)
  rwa [same, ← bytes] at shows

end

/-! ## What is stored -/

section
variable {known : NativeIndex → Int64 → Prop} {id : Int64} {object : Bytes}

/-- Only a unique index makes `put` delete other objects. -/
theorem objects_of_createForObject {index : NativeIndex} {parsed : IsarDeserializer}
    {onConflict : NativeTxn → Int64 → Result NativeTxn} (loose : index.unique = false)
    (h : index.createForObject xxh3_64 txn id parsed onConflict = .ok txn') :
    txn'.primary = txn.primary := by
  simp only [NativeIndex.createForObject, bind_eq_ok, orPanic_eq_ok, pure_eq_ok] at h
  obtain ⟨⟨key, containsNull⟩, created, txn₀, cleared, rfl⟩ := h
  rw [NativeIndex.deleteConflict, if_neg (by simp [loose])] at cleared
  obtain rfl := pure_eq_ok.mp cleared
  rfl

theorem objects_of_put (loose : ∀ index ∈ c.indexes, index.unique = false)
    (nodup : (c.indexes.map NativeIndex.db).Nodup)
    (tracked : Tracked xxh3_64 known c txn) (h : c.put xxh3_64 txn id object = .ok txn') :
    c.objects txn' = Function.update (c.objects txn) id (some object) := by
  simp only [NativeCollection.put, bind_eq_ok, cursorDb_eq_ok, orPanic_eq_ok, pure_eq_ok] at h
  obtain ⟨db, hdb, txn₁, removed, parsed, -, txn₂, created, rfl⟩ := h
  obtain ⟨same, -⟩ := @Tracked.deleteOldEntries _ _ _ _ _ id object db nodup hdb tracked removed
  have loop {indexes : List NativeIndex} {txn txn' : NativeTxn}
      (sub : ∀ index ∈ indexes, index ∈ c.indexes)
      (h : indexes.foldlM (fun txn index => index.createForObject xxh3_64 txn id parsed
        fun txn conflict => (c.delete xxh3_64 txn conflict).map Prod.fst) txn = .ok txn') :
      txn'.primary = txn.primary := by
    induction indexes generalizing txn with
    | nil =>
      obtain rfl := pure_eq_ok.mp h
      rfl
    | cons index indexes ih =>
      obtain ⟨txn₁, first, rest⟩ := bind_eq_ok.mp h
      rw [ih (fun index mem => sub index (List.mem_cons_of_mem _ mem)) rest]
      exact objects_of_createForObject (loose index (sub index List.mem_cons_self)) first
  have unchanged : c.objects txn₂ = c.objects txn := by
    refine objects_congr ?_
    rw [loop (fun _ mem => mem) created, primary_registerDetailed]
    exact same
  funext j
  rw [objects_of_db hdb, NativeTxn.get_putObject, Function.update_apply, ← unchanged,
    objects_of_db hdb]
  rfl

theorem objects_of_put_self (h : c.put xxh3_64 txn id object = .ok txn') :
    c.objects txn' id = some object := by
  simp only [NativeCollection.put, bind_eq_ok, cursorDb_eq_ok, orPanic_eq_ok, pure_eq_ok] at h
  obtain ⟨db, hdb, -, -, -, -, -, -, rfl⟩ := h
  rw [objects_of_db hdb, NativeTxn.get_putObject]
  exact if_pos rfl

theorem put_of_perform_save (h : c.perform xxh3_64 txn (.save id object) = .ok txn') :
    c.put xxh3_64 txn id object = .ok txn' := by
  simp only [perform, saveObject] at h
  split at h
  · simp at h
  · exact h

@[simp] theorem laidOver_cons (saved : Int64 × Bytes) (saves : List (Int64 × Bytes))
    (table : Int64 → Option Bytes) :
    laidOver (saved :: saves) table =
      laidOver saves (Function.update table saved.1 (some saved.2)) := rfl

/-- Fewer objects below mean fewer objects. -/
theorem laidOver_mono {saves : List (Int64 × Bytes)} {table table' : Int64 → Option Bytes}
    (within : SecondaryIndex.Within table table') :
    SecondaryIndex.Within (laidOver saves table) (laidOver saves table') := by
  induction saves generalizing table table' with
  | nil => exact within
  | cons saved saves ih =>
    have below : SecondaryIndex.Within (Function.update table saved.1 (some saved.2))
        (Function.update table' saved.1 (some saved.2)) := by
      intro j o stored
      by_cases same : j = saved.1
      · subst same
        rwa [Function.update_self] at stored ⊢
      · rw [Function.update_of_ne same] at stored ⊢
        exact within j o stored
    exact ih below

/-- A run of saves. -/
theorem savesAll_of_run {saves : List (Int64 × Bytes)} (nodup : (c.indexes.map NativeIndex.db).Nodup)
    (tracked : Tracked xxh3_64 known c txn)
    (h : c.run xxh3_64 txn (saveOperations saves) = .ok txn') :
    c.SavesAll xxh3_64 saves txn txn' := by
  induction saves generalizing known txn with
  | nil =>
    obtain rfl := pure_eq_ok.mp h
    exact ⟨rfl, fun _ _ stored => stored, fun _ => rfl, fun earlier id object eq => by simp at eq⟩
  | cons saved saves ih =>
    obtain ⟨txn₁, first, rest⟩ := bind_eq_ok.mp h
    have put := put_of_perform_save first
    obtain ⟨tracked', others⟩ := tracked.put nodup put
    obtain ⟨-, within, exact_, last⟩ := ih tracked' rest
    have below : SecondaryIndex.Within (c.objects txn₁)
        (Function.update (c.objects txn) saved.1 (some saved.2)) := by
      intro j o stored
      by_cases same : j = saved.1
      · subst same
        rw [Function.update_self, ← stored, objects_of_put_self put]
      · rw [Function.update_of_ne same]
        exact others j o same stored
    refine ⟨h, fun id object stored => ?_, fun loose => ?_, fun earlier id object eq => ?_⟩
    · exact laidOver_mono below id object (within id object stored)
    · rw [exact_ loose, laidOver_cons, objects_of_put loose nodup tracked put]
    · cases earlier with
      | nil =>
        obtain ⟨rfl, rfl⟩ := List.cons.inj eq
        obtain rfl := pure_eq_ok.mp rest
        exact objects_of_put_self put
      | cons _ earlier => exact last earlier id object (List.cons.inj eq).2

end

end NativeCollection

/-! ## Opened databases -/

section
variable {xxh3_64 : Bytes → UInt64} {d : Database} {events : List Event}

/-- A verified property of objects has a target among the collections. -/
theorem collection_of_object {schemas : List IsarSchema} {schema : IsarSchema}
    (verified : IsarSchema.verifySchemas schemas = .ok ()) (mem : schema ∈ schemas)
    {p : PropertySchema} (memP : p ∈ schema.properties)
    (object : p.dataType = .object ∨ p.dataType = .objectList) :
    ∃ target ∈ schemas, p.collection = some target.name := by
  obtain ⟨_, -, verify⟩ := bind_eq_ok.mp (IsarSchema.forM_eq_ok verified schema mem)
  obtain ⟨_, -, verify⟩ := bind_eq_ok.mp verify
  obtain ⟨_, properties, -⟩ := bind_eq_ok.mp verify
  obtain ⟨_, -, checked⟩ := bind_eq_ok.mp (IsarSchema.forM_eq_ok properties p memP)
  rw [IsarSchema.verifyTarget, if_pos object] at checked
  cases points : p.collection with
  | none =>
    rw [points] at checked
    exact absurd checked IsarSchema.schemaError_ne_ok
  | some name =>
    obtain ⟨target, listed, rfl⟩ := IsarSchema.target_of_verifySchemas verified mem memP points
    exact ⟨target, listed, rfl⟩

/-- What a migration opens can nest its objects. -/
theorem allEmbeds_of_performMigration {refused : Faults} {schemas : List IsarSchema}
    {s s' : Storage} {cols : List (NativeCollection × Int64)}
    (verified : IsarSchema.verifySchemas schemas = .ok ())
    (names : (schemas.map IsarSchema.name).Nodup) (apart : s.NamesApart)
    (h : performMigration refused schemas s = (s', .ok cols)) (few : cols.length ≤ 2 ^ 16) :
    AllEmbeds (cols.map Prod.fst) := by
  have made := madeOf_of_performMigration names h
  have lengths := made.length_eq
  rw [List.length_map] at lengths
  intro col listed entry own object
  obtain ⟨k, lt, at_⟩ := List.mem_iff_getElem.mp listed
  have below : k < schemas.length := by
    rw [List.length_map] at lt
    omega
  have turn := (made.get below lt).2
  rw [List.get_eq_getElem, List.get_eq_getElem, at_] at turn
  obtain ⟨name, q⟩ := entry
  obtain ⟨i, p, stored, named, native⟩ := turn.mem_properties.mp own
  have mem := List.getElem_mem below
  have perm := perm_named_keptProperties (s.info.find schemas[k].name)
    (IsarSchema.verified_of_verifySchemas verified _ mem).properties
    fun e found => apart _ e found
  have memP : p ∈ schemas[k].properties := (List.mem_filter.mp (perm.subset (List.mem_filter.mpr
    ⟨List.mem_of_getElem? stored, by rw [named]; rfl⟩))).1
  have object : p.dataType = .object ∨ p.dataType = .objectList := by
    rw [← (nativeProperty_eq native).1]
    exact object
  obtain ⟨target, listed', points⟩ := collection_of_object verified mem memP object
  rw [nativeProperty, points] at native
  obtain ⟨index, found, rfl⟩ := Option.map_eq_some_iff.mp native
  obtain ⟨lt', -, -⟩ := List.findIdx?_eq_some_iff_getElem.mp found
  rw [List.length_map] at lt'
  have width : (UInt16.ofNat index).toNat = index :=
    UInt16.toNat_ofNat_of_lt' (show index < 2 ^ 16 by omega)
  simp only [NativeProperty.embedded, Option.bind_eq_bind, Option.bind_some, width]
  have there : index < (cols.map Prod.fst).length := by
    rw [List.length_map]
    omega
  rw [List.getElem?_eq_getElem there]
  rfl

/-- In an opened database objects can be nested as the collections say. -/
theorem allEmbeds_of_run (run : Run (Database.Step xxh3_64) Database.new events d)
    (few : d.collections.length ≤ 2 ^ 16) : AllEmbeds d.collections := by
  have step (d : Database) (event : Event) (d' : Database)
      (both : d.Laid ∧ (d.collections.length ≤ 2 ^ 16 → AllEmbeds d.collections))
      (one : Database.Step xxh3_64 d event d') :
      d'.Laid ∧ (d'.collections.length ≤ 2 ^ 16 → AllEmbeds d'.collections) := by
    refine ⟨both.1.step one, ?_⟩
    cases one with
    | commit => exact both.2
    | abort => exact both.2
    | migrate verified names done =>
      intro few
      rw [List.length_map] at few
      exact allEmbeds_of_performMigration verified names both.1.stored done few
    | fail =>
      rintro - c ⟨⟩
  refine (run.invariant step ⟨Database.Laid.new, ?_⟩).2 few
  rintro - c ⟨⟩

/-- What an import relies on in a transaction of an opened database. -/
structure Importable (xxh3_64 : Bytes → UInt64) (all : List NativeCollection) (c : NativeCollection)
    (txn : NativeTxn) : Prop where
  laid : ∀ c ∈ all, c.Laid
  embeds : AllEmbeds all
  names : ∀ c ∈ all, (c.properties.map Prod.fst).Nodup
  indexes : (c.indexes.map NativeIndex.db).Nodup
  tracked : ∃ known, NativeCollection.Tracked xxh3_64 known c txn

theorem importable_of_run {c : NativeCollection} {txn : NativeTxn} {counters : String → Int64}
    {operations : List Operation}
    (run : Run (fun d event d' => Database.Step xxh3_64 d event d' ∧ d.Plain event) Database.new
      events d) (fewC : d.collections.length ≤ 2 ^ 16) (opened : c ∈ d.collections)
    (began : c.run xxh3_64 (d.storage.beginTxn counters) operations = .ok txn) :
    Importable xxh3_64 d.collections c txn := by
  have kempt : d.Kempt xxh3_64 := run.invariant (fun _ _ _ kempt one => kempt.step one)
    Database.Kempt.new
  have nodup : (c.indexes.map NativeIndex.db).Nodup := by
    obtain ⟨_, verified, c, listed, openedC⟩ := kempt.laid.opened c opened
    exact openedC.nodup_db verified listed
  obtain ⟨known, tracked, -⟩ := (kempt.indexed.tracked opened kempt.backed counters).run nodup began
  exact ⟨fun c mem => kempt.laid.collection mem,
    allEmbeds_of_run (run.mono fun _ _ _ one => one.1) fewC,
    fun c mem => kempt.laid.nodup_names mem, nodup, known, tracked⟩

theorem plain_of_mem {elements : List Source} (plain : PlainElements elements) :
    ∀ source ∈ elements, Plain source := by
  induction elements with
  | nil => simp
  | cons first elements ih =>
    intro source mem
    rcases List.mem_cons.mp mem with rfl | mem
    · exact plain.1
    · exact ih plain.2 source mem

/-- The import of a list of objects. -/
theorem importJson_array {messages : JsonMessages} {strToId : List Char → Int64}
    {all : List NativeCollection} {c : NativeCollection} {txn txn' : NativeTxn} {raw : List Char}
    {elements : List Source} {n : UInt32} (few : ∀ c ∈ all, c.properties.length < 2 ^ 16)
    (mem : c ∈ all) (importable : Importable xxh3_64 all c txn) (plain : PlainElements elements) :
    Inserts.importJson messages strToId (c.inserts xxh3_64 all) txn (.array raw elements) =
        .ok (txn', n) ↔
      n = UInt32.ofNat elements.length ∧ ∃ saves,
        List.Forall₂ (c.WrittenAs all strToId) elements saves ∧
        c.SavesAll xxh3_64 saves txn txn' := by
  obtain ⟨known, tracked⟩ := importable.tracked
  have visited := @NativeCollection.visitSeq_eq_ok xxh3_64 messages strToId all c txn txn' few
    importable.embeds mem 0 [] elements n (by decide) (plain_of_mem plain)
  rw [List.nil_append, Nat.zero_add] at visited
  rw [Inserts.importJson, visited]
  constructor
  · rintro ⟨saves, written, ran, rfl⟩
    exact ⟨rfl, saves, written, NativeCollection.savesAll_of_run importable.indexes tracked ran⟩
  · rintro ⟨rfl, saves, written, saved⟩
    exact ⟨saves, written, saved.run, rfl⟩

/-- An import into a collection of an opened database succeeds exactly when the document is a list of
objects that can be written, each with an id, and the saves succeed one after the other; what it
has saved then shows the objects of the document. -/
theorem json_import {messages : JsonMessages} {strToId : List Char → Int64} {c : NativeCollection}
    {txn txn' : NativeTxn} {counters : String → Int64} {operations : List Operation}
    {source : Source} {n : UInt32}
    (run : Run (fun d event d' => Database.Step xxh3_64 d event d' ∧ d.Plain event) Database.new
      events d) (few : ∀ c ∈ d.collections, c.properties.length < 2 ^ 16)
    (fewC : d.collections.length ≤ 2 ^ 16) (opened : c ∈ d.collections) (plain : Plain source)
    (began : c.run xxh3_64 (d.storage.beginTxn counters) operations = .ok txn) :
    Inserts.importJson messages strToId (c.inserts xxh3_64 d.collections) txn source = .ok (txn', n) ↔
      ∃ raw elements saves, source = .array raw elements ∧
        n = UInt32.ofNat elements.length ∧
        List.Forall₂ (c.ImportedAs d.collections strToId) elements saves ∧
        c.SavesAll xxh3_64 saves txn txn' := by
  have importable := importable_of_run run fewC opened began
  cases source with
  | array raw elements =>
    obtain ⟨-, plain⟩ := plain
    rw [importJson_array few opened importable plain]
    constructor
    · rintro ⟨rfl, saves, written, saved⟩
      refine ⟨raw, elements, saves, rfl, rfl, ?_, saved⟩
      refine List.forall₂_iff_zip.mpr ⟨written.length_eq, fun pair => ?_⟩
      exact ((List.forall₂_iff_zip.mp written).2 pair).imported few opened importable.laid
        (plain_of_mem plain _ (List.of_mem_zip pair).1)
    · rintro ⟨raw', elements', saves, eq, rfl, imported, saved⟩
      cases eq
      exact ⟨rfl, saves, imported.imp fun _ _ imported => imported.written, saved⟩
  | _ =>
    constructor
    · intro done
      cases done
    · rintro ⟨_, _, _, eq, -⟩
      cases eq

end

/-! ## Two tasks -/

/-- A task that is due at the fifth second. -/
def dueSource (id : Int) : Source :=
  .object [] [("id", .number [] (.integer id)), ("due", .number [] (.integer 5))]

def noMessages : JsonMessages where
  invalidType _ _ := ""
  custom _ := ""

theorem json_import_on_tasks : ∃ txn' object,
    Inserts.importJson noMessages (fun _ => 0) (tasks.inserts (fun _ => 0) [tasks])
        (dueStorage.beginTxn fun _ => 1) (.array [] [dueSource 1, dueSource 2]) = .ok (txn', 2) ∧
      tasks.objects txn' 2 = some object ∧
      tasks.Shows [tasks] 2 object ⟨some "id", 2, [("due", .long, .long 5)]⟩ := by
  obtain ⟨⟨txn', n⟩, done, found⟩ := exists_of_succeedsWith
    (Inserts.importJson noMessages (fun _ => 0) (tasks.inserts (fun _ => 0) [tasks])
      (dueStorage.beginTxn fun _ => 1) (.array [] [dueSource 1, dueSource 2]))
    (fun after => after.2 == 2) (by decide +kernel)
  obtain rfl : n = 2 := beq_iff_eq.mp found
  have single : Unambiguous [countedBy "Task" "due"] :=
    (unambiguous_iff (by decide)).mpr (by decide)
  have run : Run (fun d event d' => Database.Step (fun _ => 0) d event d' ∧ d.Plain event)
      Database.new [.migrate noFaults [countedBy "Task" "due"]] ⟨dueStorage, [tasks]⟩ :=
    .cons ⟨@Database.Step.migrate _ _ noFaults [countedBy "Task" "due"] dueStorage [(tasks, 1)] rfl
      (by decide) rfl, single⟩ .nil
  have plain : Plain (.array [] [dueSource 1, dueSource 2]) := by
    simp [Plain, PlainElements, PlainEntries, dueSource]
  have few (c : NativeCollection) (mem : c ∈ [tasks]) : c.properties.length < 2 ^ 16 := by
    cases List.mem_singleton.mp mem
    decide
  have began : tasks.run (fun _ => 0) (dueStorage.beginTxn fun _ => 1) [] =
    .ok (dueStorage.beginTxn fun _ => 1) := rfl
  obtain ⟨raw, elements, saves, eq, -, imported, saved⟩ :=
    (json_import run few (by decide) (List.mem_singleton_self tasks) plain began).mp done
  cases eq
  obtain ⟨first, saves, -, others, rfl⟩ := List.forall₂_cons_left_iff.mp imported
  obtain ⟨⟨id, object⟩, saves, ⟨written, shows⟩, rest, rfl⟩ := List.forall₂_cons_left_iff.mp others
  obtain rfl := List.forall₂_nil_left_iff.mp rest
  obtain ⟨_, entries, _, _, eq, -, found, -⟩ := written
  cases eq
  cases found
  exact ⟨txn', object, done, saved.last [first] 2 object rfl, shows _ _ rfl⟩

end IsarPlus.Native
