import Mathlib.Data.List.Basic
import Mathlib.Data.Nat.Notation

/-!
# Compact JSON text

The text that a compact writer gives a JSON document. A document can be told from its text: no text
of a document goes on as the text of another one.
-/

namespace JsonText

/-- The characters of numbers. -/
def isNumeral (c : Char) : Bool := c.isDigit || ['-', '+', '.', 'e', 'E'].contains c

/-- What a number is written as. -/
structure Numeral where
  token : List Char
  nonempty : token ≠ []
  numerals : ∀ c ∈ token, isNumeral c = true

theorem Numeral.ext {n m : Numeral} (h : n.token = m.token) : n = m := by
  cases n
  cases m
  congr

/-- A JSON document. -/
inductive Doc where
  | null
  | bool (value : Bool)
  | number (value : Numeral)
  | string (value : List Char)
  | array (values : List Doc)
  | object (entries : List (List Char × Doc))

/-! ## Strings -/

def quote : Char := Char.ofNat 34

def backslash : Char := Char.ofNat 92

/-- The characters that have an escape of one letter, with that letter. -/
def shortEscapes : List (Char × Char) :=
  [(quote, quote), (backslash, backslash), (Char.ofNat 8, 'b'), (Char.ofNat 9, 't'),
    (Char.ofNat 10, 'n'), (Char.ofNat 12, 'f'), (Char.ofNat 13, 'r')]

/-- A character of a string, escaped where it has to be. -/
def escape (c : Char) : List Char :=
  match shortEscapes.lookup c with
  | some letter => [backslash, letter]
  | none =>
    if c.toNat < 32 then
      [backslash, 'u', '0', '0', Nat.digitChar (c.toNat / 16), Nat.digitChar (c.toNat % 16)]
    else [c]

def stringText (s : List Char) : List Char := quote :: (s.flatMap escape ++ [quote])

theorem escape_cases (c : Char) :
    (∃ letter, (c, letter) ∈ shortEscapes ∧ escape c = [backslash, letter]) ∨
    (c.toNat < 32 ∧ escape c =
      [backslash, 'u', '0', '0', Nat.digitChar (c.toNat / 16), Nat.digitChar (c.toNat % 16)]) ∨
    (c ≠ quote ∧ c ≠ backslash ∧ escape c = [c]) := by
  cases found : shortEscapes.lookup c with
  | some letter =>
    obtain ⟨before, after, eq, -⟩ := List.lookup_eq_some_iff.mp found
    have mem : (c, letter) ∈ shortEscapes := by simp [eq]
    exact Or.inl ⟨letter, mem, by rw [escape, found]⟩
  | none =>
    refine Or.inr ?_
    by_cases control : c.toNat < 32
    · exact Or.inl ⟨control, by rw [escape, found]; exact if_pos control⟩
    · have none := List.lookup_eq_none_iff.mp found
      refine Or.inr ⟨?_, ?_, by rw [escape, found]; exact if_neg control⟩
      · intro same
        subst same
        exact absurd (none (quote, quote) (by decide)) (by decide)
      · intro same
        subst same
        exact absurd (none (backslash, backslash) (by decide)) (by decide)

theorem digitChar_inj {m n : Nat} (hm : m < 16) (hn : n < 16)
    (h : Nat.digitChar m = Nat.digitChar n) : m = n := by
  have all : ∀ m n : Fin 16, Nat.digitChar m = Nat.digitChar n → m = n := by decide
  exact Fin.mk.inj_iff.mp (all ⟨m, hm⟩ ⟨n, hn⟩ h)

theorem shortEscapes_inj : ∀ p ∈ shortEscapes, ∀ q ∈ shortEscapes, p.2 = q.2 → p.1 = q.1 := by
  decide

theorem shortEscapes_ne_u : ∀ p ∈ shortEscapes, p.2 ≠ 'u' := by decide

/-- No escape is the beginning of another one. -/
theorem escape_unique {c d : Char} {r s : List Char} (h : escape c ++ r = escape d ++ s) :
    c = d ∧ r = s := by
  rcases escape_cases c with ⟨l, memL, eqC⟩ | ⟨controlC, eqC⟩ | ⟨-, neC, eqC⟩ <;>
    rcases escape_cases d with ⟨m, memM, eqD⟩ | ⟨controlD, eqD⟩ | ⟨-, neD, eqD⟩ <;>
    rw [eqC, eqD] at h <;> simp only [List.cons_append, List.nil_append, List.cons.injEq] at h
  · exact ⟨shortEscapes_inj _ memL _ memM h.2.1, h.2.2⟩
  · exact absurd h.2.1 (shortEscapes_ne_u _ memL)
  · exact absurd h.1.symm neD
  · exact absurd h.2.1.symm (shortEscapes_ne_u _ memM)
  · obtain ⟨-, -, -, -, high, low, rest⟩ := h
    have quotient := digitChar_inj (by omega) (by omega) high
    have remainder := digitChar_inj (by omega) (by omega) low
    exact ⟨Char.toNat_inj.mp (by omega), rest⟩
  · exact absurd h.1.symm neD
  · exact absurd h.1 neC
  · exact absurd h.1 neC
  · exact h

/-- A closing quote is no escape. -/
theorem escape_ne_quote {c : Char} {r s : List Char} : escape c ++ r ≠ quote :: s := by
  intro h
  rcases escape_cases c with ⟨l, -, eq⟩ | ⟨-, eq⟩ | ⟨ne, -, eq⟩ <;> rw [eq] at h <;>
    simp only [List.cons_append, List.nil_append, List.cons.injEq] at h
  · exact absurd h.1 (by decide)
  · exact absurd h.1 (by decide)
  · exact ne h.1

theorem escapes_unique {s t r r' : List Char}
    (h : s.flatMap escape ++ quote :: r = t.flatMap escape ++ quote :: r') : s = t ∧ r = r' := by
  induction s generalizing t with
  | nil =>
    cases t with
    | nil => exact ⟨rfl, List.cons.inj h |>.2⟩
    | cons d t =>
      rw [List.flatMap_cons, List.append_assoc] at h
      exact absurd h.symm escape_ne_quote
  | cons c s ih =>
    cases t with
    | nil =>
      rw [List.flatMap_cons, List.append_assoc] at h
      exact absurd h escape_ne_quote
    | cons d t =>
      rw [List.flatMap_cons, List.append_assoc, List.flatMap_cons, List.append_assoc] at h
      obtain ⟨rfl, rest⟩ := escape_unique h
      obtain ⟨rfl, same⟩ := ih rest
      exact ⟨rfl, same⟩

theorem stringText_unique {s t r r' : List Char} (h : stringText s ++ r = stringText t ++ r') :
    s = t ∧ r = r' := by
  simp only [stringText, List.cons_append, List.append_assoc, List.nil_append, List.cons.injEq,
    true_and] at h
  exact escapes_unique h

/-! ## Documents -/

mutual

/-- The text of a document. -/
def text : Doc → List Char
  | .null => ['n', 'u', 'l', 'l']
  | .bool true => ['t', 'r', 'u', 'e']
  | .bool false => ['f', 'a', 'l', 's', 'e']
  | .number value => value.token
  | .string value => stringText value
  | .array [] => ['[', ']']
  | .array (value :: values) => '[' :: (text value ++ moreValues values)
  | .object [] => ['{', '}']
  | .object ((key, value) :: entries) =>
    '{' :: (stringText key ++ ':' :: (text value ++ moreEntries entries))

/-- The other values of an array, to its end. -/
def moreValues : List Doc → List Char
  | [] => [']']
  | value :: values => ',' :: (text value ++ moreValues values)

/-- The other entries of an object, to its end. -/
def moreEntries : List (List Char × Doc) → List Char
  | [] => ['}']
  | (key, value) :: entries =>
    ',' :: (stringText key ++ ':' :: (text value ++ moreEntries entries))

end

/-- What may follow a document. -/
def Ends (r : List Char) : Prop := r = [] ∨ ∃ c s, r = c :: s ∧ isNumeral c = false

theorem ends_moreValues (values : List Doc) (r : List Char) : Ends (moreValues values ++ r) := by
  cases values <;> exact Or.inr ⟨_, _, rfl, by decide⟩

theorem ends_moreEntries (entries : List (List Char × Doc)) (r : List Char) :
    Ends (moreEntries entries ++ r) := by
  rcases entries with _ | ⟨_, _⟩ <;> exact Or.inr ⟨_, _, rfl, by decide⟩

/-- The numeral at the beginning of a text. -/
theorem takeWhile_numeral (n : Numeral) {r : List Char} (ends : Ends r) :
    (n.token ++ r).takeWhile isNumeral = n.token ∧ (n.token ++ r).dropWhile isNumeral = r := by
  have rest : r.takeWhile isNumeral = [] ∧ r.dropWhile isNumeral = r := by
    rcases ends with rfl | ⟨c, s, rfl, no⟩
    · exact ⟨rfl, rfl⟩
    · simp [no]
  rw [List.takeWhile_append_of_pos n.numerals, List.dropWhile_append_of_pos n.numerals, rest.1,
    rest.2, List.append_nil]
  exact ⟨rfl, rfl⟩

theorem numeral_unique {n m : Numeral} {r s : List Char} (ends : Ends r) (ends' : Ends s)
    (h : n.token ++ r = m.token ++ s) : n = m ∧ r = s := by
  obtain ⟨tokenN, restN⟩ := takeWhile_numeral n ends
  obtain ⟨tokenM, restM⟩ := takeWhile_numeral m ends'
  rw [h] at tokenN restN
  exact ⟨Numeral.ext (tokenN.symm.trans tokenM), restN.symm.trans restM⟩

/-- A numeral begins like no other document. -/
theorem token_ne_cons (n : Numeral) {c : Char} {r s : List Char} (no : isNumeral c = false) :
    n.token ++ r ≠ c :: s := by
  intro h
  obtain ⟨token, nonempty, numerals⟩ := n
  cases token with
  | nil => exact nonempty rfl
  | cons first token =>
    obtain ⟨rfl, -⟩ := List.cons.inj h
    rw [numerals first List.mem_cons_self] at no
    cases no

theorem text_ne_close (d : Doc) {r s : List Char} : text d ++ r ≠ ']' :: s := by
  intro h
  unfold text at h
  split at h
  case h_4 => exact token_ne_cons _ (by decide) h
  all_goals exact absurd (List.cons.inj h).1 (by decide)

/-- The constructor of a document. -/
def kind : Doc → Nat
  | .null => 0
  | .bool _ => 1
  | .number _ => 2
  | .string _ => 3
  | .array _ => 4
  | .object _ => 5

/-- The constructor whose texts begin with a character. -/
def kindOf (c : Char) : Nat :=
  if c = 'n' then 0
  else if c = 't' ∨ c = 'f' then 1
  else if c = quote then 3
  else if c = '[' then 4
  else if c = '{' then 5
  else 2

theorem kindOf_numeral {c : Char} (h : isNumeral c = true) : kindOf c = 2 := by
  have ne {d : Char} (no : isNumeral d = false) : c ≠ d := by
    intro same
    rw [same, no] at h
    cases h
  rw [kindOf, if_neg (ne (by decide)), if_neg (not_or.mpr ⟨ne (by decide), ne (by decide)⟩),
    if_neg (ne (by decide)), if_neg (ne (by decide)), if_neg (ne (by decide))]

theorem kindOf_text (d : Doc) : ∃ c s, text d = c :: s ∧ kindOf c = kind d := by
  cases d with
  | null => exact ⟨_, _, rfl, by decide⟩
  | bool value => cases value <;> exact ⟨_, _, rfl, by decide⟩
  | number value =>
    obtain ⟨token, nonempty, numerals⟩ := value
    cases token with
    | nil => exact absurd rfl nonempty
    | cons c token => exact ⟨c, token, rfl, kindOf_numeral (numerals c List.mem_cons_self)⟩
  | string value => exact ⟨_, _, rfl, (by decide : kindOf quote = 3)⟩
  | array values => cases values <;> exact ⟨_, _, rfl, (by decide : kindOf '[' = 4)⟩
  | object entries =>
    rcases entries with _ | ⟨_, _⟩ <;> exact ⟨_, _, rfl, (by decide : kindOf '{' = 5)⟩

theorem kind_eq {d d' : Doc} {r r' : List Char} (h : text d ++ r = text d' ++ r') :
    kind d = kind d' := by
  obtain ⟨c, s, eq, first⟩ := kindOf_text d
  obtain ⟨c', s', eq', first'⟩ := kindOf_text d'
  rw [eq, eq'] at h
  obtain ⟨rfl, -⟩ := List.cons.inj h
  exact first.symm.trans first'

theorem cons_cancel {a : Char} {r s : List Char} (h : a :: r = a :: s) : r = s :=
  (List.cons.inj h).2

mutual

/-- The text tells the document, and where it ends. -/
theorem text_unique : ∀ (d d' : Doc) {r r' : List Char}, Ends r → Ends r' →
    text d ++ r = text d' ++ r' → d = d' ∧ r = r'
  | .null, d', r, r', _, _, h => by
    have same := kind_eq h
    cases d' <;> cases same
    exact ⟨rfl, by simpa [text] using h⟩
  | .bool value, d', r, r', _, _, h => by
    have same := kind_eq h
    cases d' <;> cases same
    rename_i value'
    cases value <;> cases value' <;> simp [text] at h
    · exact ⟨rfl, h⟩
    · exact ⟨rfl, h⟩
  | .number value, d', r, r', ends, ends', h => by
    have same := kind_eq h
    cases d' <;> cases same
    obtain ⟨rfl, rest⟩ := numeral_unique ends ends' h
    exact ⟨rfl, rest⟩
  | .string value, d', r, r', _, _, h => by
    have same := kind_eq h
    cases d' <;> cases same
    obtain ⟨rfl, rest⟩ := stringText_unique h
    exact ⟨rfl, rest⟩
  | .array [], d', r, r', _, _, h => by
    have same := kind_eq h
    cases d' <;> cases same
    rename_i values
    cases values with
    | nil => exact ⟨rfl, cons_cancel (cons_cancel h)⟩
    | cons value values =>
      simp only [text, List.cons_append, List.append_assoc, List.nil_append, List.cons.injEq,
        true_and] at h
      exact absurd h.symm (text_ne_close value)
  | .array (v :: vs), d', r, r', _, _, h => by
    have same := kind_eq h
    cases d' <;> cases same
    rename_i values
    cases values with
    | nil =>
      simp only [text, List.cons_append, List.append_assoc, List.nil_append, List.cons.injEq,
        true_and] at h
      exact absurd h (text_ne_close v)
    | cons value values =>
      simp only [text, List.cons_append, List.append_assoc, List.cons.injEq, true_and] at h
      obtain ⟨rfl, more⟩ := text_unique v value (ends_moreValues vs r) (ends_moreValues values r')
        h
      obtain ⟨rfl, rest⟩ := moreValues_unique vs values more
      exact ⟨rfl, rest⟩
  | .object [], d', r, r', _, _, h => by
    have same := kind_eq h
    cases d' <;> cases same
    rename_i entries
    rcases entries with _ | ⟨⟨key, value⟩, entries⟩
    · exact ⟨rfl, cons_cancel (cons_cancel h)⟩
    · exact absurd (List.cons.inj (cons_cancel h)).1 (by decide)
  | .object ((k, v) :: es), d', r, r', _, _, h => by
    have same := kind_eq h
    cases d' <;> cases same
    rename_i entries
    rcases entries with _ | ⟨⟨key, value⟩, entries⟩
    · exact absurd (List.cons.inj (cons_cancel h)).1 (by decide)
    · simp only [text, List.cons_append, List.append_assoc, List.cons.injEq, true_and] at h
      obtain ⟨rfl, rest⟩ := stringText_unique h
      obtain ⟨rfl, more⟩ := text_unique v value (ends_moreEntries es r)
        (ends_moreEntries entries r') (cons_cancel rest)
      obtain ⟨rfl, same⟩ := moreEntries_unique es entries more
      exact ⟨rfl, same⟩

theorem moreValues_unique : ∀ (vs vs' : List Doc) {r r' : List Char},
    moreValues vs ++ r = moreValues vs' ++ r' → vs = vs' ∧ r = r'
  | [], vs', r, r', h => by
    cases vs' with
    | nil => exact ⟨rfl, cons_cancel h⟩
    | cons => exact absurd (List.cons.inj h).1 (by decide)
  | v :: vs, vs', r, r', h => by
    cases vs' with
    | nil => exact absurd (List.cons.inj h).1 (by decide)
    | cons value values =>
      simp only [moreValues, List.cons_append, List.append_assoc, List.cons.injEq, true_and] at h
      obtain ⟨rfl, more⟩ := text_unique v value (ends_moreValues vs r) (ends_moreValues values r')
        h
      obtain ⟨rfl, rest⟩ := moreValues_unique vs values more
      exact ⟨rfl, rest⟩

theorem moreEntries_unique : ∀ (es es' : List (List Char × Doc)) {r r' : List Char},
    moreEntries es ++ r = moreEntries es' ++ r' → es = es' ∧ r = r'
  | [], es', r, r', h => by
    rcases es' with _ | ⟨⟨key, value⟩, entries⟩
    · exact ⟨rfl, cons_cancel h⟩
    · exact absurd (List.cons.inj h).1 (by decide)
  | (k, v) :: es, es', r, r', h => by
    rcases es' with _ | ⟨⟨key, value⟩, entries⟩
    · exact absurd (List.cons.inj h).1 (by decide)
    · simp only [moreEntries, List.cons_append, List.append_assoc, List.cons.injEq, true_and] at h
      obtain ⟨rfl, rest⟩ := stringText_unique h
      obtain ⟨rfl, more⟩ := text_unique v value (ends_moreEntries es r)
        (ends_moreEntries entries r') (cons_cancel rest)
      obtain ⟨rfl, same⟩ := moreEntries_unique es entries more
      exact ⟨rfl, same⟩

end

theorem text_injective : Function.Injective text := by
  intro d d' h
  have nothing : Ends [] := Or.inl rfl
  exact (text_unique d d' nothing nothing (by rw [h])).1

/-! ## Integers -/

/-- The decimal digits of an integer. -/
def decimal (n : Int) : List Char :=
  if n < 0 then '-' :: Nat.toDigits 10 n.natAbs else Nat.toDigits 10 n.natAbs

theorem toDigits_injective : Function.Injective (Nat.toDigits 10) := by
  intro m n h
  have back := congrArg (Nat.ofDigitChars 10 · 0) h
  simpa only [Nat.ofDigitChars_ten_toDigits] using back

theorem minus_notMem_toDigits {n : Nat} : '-' ∉ Nat.toDigits 10 n := fun mem =>
  absurd (Nat.isDigit_of_mem_toDigits (by decide) (by decide) mem) (by decide)

theorem decimal_injective : Function.Injective decimal := by
  intro m n h
  unfold decimal at h
  split at h <;> split at h
  · have same := toDigits_injective (cons_cancel h)
    omega
  · exact absurd (h ▸ List.mem_cons_self) minus_notMem_toDigits
  · exact absurd (h ▸ List.mem_cons_self) minus_notMem_toDigits
  · have same := toDigits_injective h
    omega

theorem isNumeral_decimal {n : Int} : ∀ c ∈ decimal n, isNumeral c = true := by
  intro c mem
  have digit (mem : c ∈ Nat.toDigits 10 n.natAbs) : isNumeral c = true := by
    rw [isNumeral, Nat.isDigit_of_mem_toDigits (by decide) (by decide) mem, Bool.true_or]
  unfold decimal at mem
  split at mem
  · rcases List.mem_cons.mp mem with rfl | mem
    · decide
    · exact digit mem
  · exact digit mem

/-- An integer as a number. -/
def integer (n : Int) : Numeral where
  token := decimal n
  nonempty := by
    unfold decimal
    split
    · exact List.cons_ne_nil _ _
    · exact Nat.toDigits_ne_nil
  numerals := isNumeral_decimal

theorem integer_injective : Function.Injective integer := fun _ _ h =>
  decimal_injective (congrArg Numeral.token h)

end JsonText
