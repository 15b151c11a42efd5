import IsarPlus.Lib.Sql

/-!
# Names in SQL texts

Which identifiers the tokenizer and the grammar of SQLite read as the name that is written, without
quotes around it.
-/

namespace Sql

/-- The characters of words (`IdChar`): letters and digits of ASCII, two more, and everything beyond
ASCII. -/
def isWordChar (c : Char) : Bool := c.isAlphanum || c == '_' || c == '$' || 128 ≤ c.toNat

/-- A number or a variable does not begin a word, and a byte order mark is a blank. -/
def isWordStart (c : Char) : Bool := isWordChar c && !c.isDigit && c != '$' && c != '\uFEFF'

/-- The text is a single word. -/
def isWord : List Char → Bool
  | [] => false
  | c :: cs => isWordStart c && cs.all isWordChar

/-- The words that the grammar takes for something else than a name: keywords that never fall back to
`ID`, and those that do not fall back where a table, a column, a type or an expression is expected. -/
def reserved : List String :=
  ["add", "all", "alter", "and", "as", "autoincrement", "between", "case", "cast", "check", "collate",
    "commit", "constraint", "create", "current_date", "current_time", "current_timestamp", "default",
    "deferrable", "delete", "distinct", "drop", "else", "escape", "except", "exists", "false",
    "foreign", "from", "generated", "group", "having", "if", "in", "index", "insert", "intersect",
    "into", "is", "isnull", "join", "limit", "not", "nothing", "notnull", "null", "on", "or", "order",
    "primary", "raise", "references", "returning", "select", "set", "table", "then", "to",
    "transaction", "true", "union", "unique", "update", "using", "values", "when", "where", "with"]

/-- The name is read as it is written. -/
def Plain (name : String) : Prop :=
  isWord name.toList = true ∧ noCase name.toList ∉ reserved.map String.toList

instance (name : String) : Decidable (Plain name) := inferInstanceAs (Decidable (_ ∧ _))

/-- What stands behind the element in the type of a list; the brackets quote an empty name. -/
def listSuffix : String := "[]_TEXT"

/-- The element in the type of a list. -/
def listElement (sqlType : String) : String :=
  String.ofList (sqlType.toList.take (sqlType.toList.length - listSuffix.toList.length))

/-- The type of a column is kept as it is written: a name, or one with the brackets of a list. -/
def PlainType (sqlType : String) : Prop :=
  Plain sqlType ∨ Plain (listElement sqlType) ∧ sqlType = listElement sqlType ++ listSuffix

instance (sqlType : String) : Decidable (PlainType sqlType) :=
  inferInstanceAs (Decidable (_ ∨ _ ∧ _))

/-! ## Texts -/

/-- The name that a token spells. -/
def Token.name? : Token → Option String
  | .name s => some s
  | _ => none

section
variable {α : Type}

def Text.names (text : Text α) : List String := text.tokens.filterMap Token.name?

/-- The value of a text on a row; `misread` stands for what becomes of it where a name is not read as
it is written. -/
def runText (misread : Text α → Option (Option Bool)) (env : Env α) (text : Text α) :
    Option (Option Bool) :=
  if ∀ name ∈ text.names, Plain name then run env text else misread text

theorem runText_of_plain {misread : Text α → Option (Option Bool)} {env : Env α} {text : Text α}
    (plain : ∀ name ∈ text.names, Plain name) : runText misread env text = run env text :=
  if_pos plain

@[simp] theorem names_append (a b : Text α) : (a ++ b).names = a.names ++ b.names :=
  List.filterMap_append

end

/-! ## Words -/

theorem isWord_append {word more : List Char} (isWord_ : isWord word = true)
    (chars : more.all isWordChar = true) : isWord (word ++ more) = true := by
  cases word with
  | nil => cases isWord_
  | cons c cs =>
    rw [isWord, Bool.and_eq_true] at isWord_
    rw [List.cons_append, isWord, List.all_append, isWord_.1, isWord_.2, chars]
    rfl

theorem isWordChar_of_isWord {word : List Char} (isWord_ : isWord word = true) :
    word.all isWordChar = true := by
  cases word with
  | nil => rfl
  | cons c cs =>
    simp only [isWord, isWordStart, Bool.and_eq_true] at isWord_
    rw [List.all_cons, isWord_.1.1.1.1, isWord_.2]
    rfl

theorem plainType_of_list {element : String} (plain : Plain element) :
    PlainType (element ++ listSuffix) := by
  have same : listElement (element ++ listSuffix) = element := by
    rw [listElement, String.toList_append, List.length_append, Nat.add_sub_cancel, List.take_left,
      String.ofList_toList]
  refine Or.inr ?_
  rw [same]
  exact ⟨plain, rfl⟩

end Sql
