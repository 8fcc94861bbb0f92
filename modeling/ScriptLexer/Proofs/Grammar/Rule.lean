import Mathlib.Computability.Language
import ScriptLexer.Proofs.Segment.Boundary
import ScriptLexer.Token.Kind
import ScriptLexer.Numeral.Nearest

open scoped Computability

-- The lexical grammar, one regular language for each kind of lexeme. Nothing here knows
-- how a text is read: classes are ranges of characters, and what operators and reserved
-- words mean stands in two tables.
namespace ScriptLexer.Grammar

def spellings : List (String × Operator) :=
  [("(",.leftParen),(")",.rightParen),("\x7b",.leftBrace),("\x7d",.rightBrace),(",",.comma),(".",.dot),
   ("-",.minus),("+",.plus),(";",.semicolon),("/",.slash),("*",.star),("!",.bang),("!=",.bangEqual),
   ("=",.equal),("==",.equalEqual),(">",.greater),(">=",.greaterEqual),("<",.less),("<=",.lessEqual)]

def reserved : List (String × Keyword) :=
  [("and",.kwAnd),("class",.kwClass),("else",.kwElse),("false",.kwFalse),("fun",.kwFun),("for",.kwFor),
   ("if",.kwIf),("nil",.kwNil),("or",.kwOr),("print",.kwPrint),("return",.kwReturn),("super",.kwSuper),
   ("this",.kwThis),("true",.kwTrue),("var",.kwVar),("while",.kwWhile)]

def isLetter (c : Char) : Bool := ('a' ≤ c && c ≤ 'z') || ('A' ≤ c && c ≤ 'Z') || c == '_'

def oneOf (p : Char → Bool) : Language Char := {text | ∃ c, p c = true ∧ text = [c]}

def exactly (text : List Char) : Language Char := {text}

def blank : Language Char := oneOf ([' ','\r','\t','\n'].contains ·)

def digits : Language Char := oneOf Char.isDigit * (oneOf Char.isDigit)∗

def number : Language Char := digits * (1 + exactly ['.'] * digits)

def word : Language Char := oneOf isLetter * (oneOf fun c => isLetter c || c.isDigit)∗

def unquoted : Language Char := (oneOf (· != '"'))∗

def string : Language Char := exactly ['"'] * unquoted * exactly ['"']

def openString : Language Char := exactly ['"'] * unquoted

def lineComment : Language Char := exactly ['/','/'] * (oneOf (· != '\n'))∗

def spelled (o : Operator) : Language Char := {text | (String.ofList text,o) ∈ spellings}

def operator : Language Char := {text | ∃ o, text ∈ spelled o}

def lexeme : Language Char := operator + word + number + string

def blockComment : Language Char :=
  {text | ∃ body, text = ['/','*'] ++ body ++ ['*','/'] ∧
    ∀ front back, body ++ ['*','/'] = front ++ ['*','/'] ++ back → back = []}

def openComment : Language Char :=
  {text | ∃ body, text = ['/','*'] ++ body ∧ ∀ front back, body ≠ front ++ ['*','/'] ++ back}

inductive Rule where
  | blank
  | lineComment
  | blockComment
  | openComment
  | string
  | openString
  | number
  | word
  | operator (o : Operator)
deriving DecidableEq

-- The rule matches `text` where the source goes on with `rest`. What is left open runs
-- to the end of the source; no other rule looks at the rest.
def Rule.Matches (rule : Rule) (text rest : List Char) : Prop :=
  match rule with
  | .blank => text ∈ Grammar.blank
  | .lineComment => text ∈ Grammar.lineComment
  | .blockComment => text ∈ Grammar.blockComment
  | .openComment => text ∈ Grammar.openComment ∧ rest = []
  | .string => text ∈ Grammar.string
  | .openString => text ∈ Grammar.openString ∧ rest = []
  | .number => text ∈ Grammar.number
  | .word => text ∈ Grammar.word
  | .operator o => text ∈ spelled o

def numeralValue (text : List Char) : Binary64 :=
  (Decimal.ofDigits (text.takeWhile (· != '.')) ((text.dropWhile (· != '.')).drop 1)).toBinary64

theorem mem_oneOf {p : Char → Bool} {text : List Char} :
    text ∈ oneOf p ↔ ∃ c, p c = true ∧ text = [c] := Iff.rfl

theorem isLetter_eq : isLetter = isWordStart := by
  funext c
  have either : c.isAlpha = (c.isUpper || c.isLower) := rfl
  have upper : c.isUpper = ('A' ≤ c && c ≤ 'Z') := Bool.decide_and _ _
  have lower : c.isLower = ('a' ≤ c && c ≤ 'z') := rfl
  rw [isLetter,isWordStart,either,upper,lower,Bool.or_comm ('A' ≤ c && c ≤ 'Z')]

theorem mem_blank {text : List Char} : text ∈ blank ↔ ∃ c, isBlank c = true ∧ text = [c] := by
  simp only [blank,mem_oneOf,List.contains_iff_mem,isBlank_iff]

theorem mem_spelled {text : List Char} {o : Operator} : text ∈ spelled o ↔ text = o.text := by
  have each : ∀ entry ∈ spellings, entry.1 = String.ofList entry.2.text := by decide +kernel
  have all : (String.ofList o.text,o) ∈ spellings := by cases o <;> decide +kernel
  constructor
  · intro listed
    exact String.ofList_injective (each _ listed)
  · intro same
    exact same ▸ all

theorem operator_iff {text : List Char} : text ∈ operator ↔ ∃ o : Operator, text = o.text :=
  exists_congr fun _ => mem_spelled

theorem lookup_reserved (letters : List Char) :
    reserved.lookup (String.ofList letters) = Keyword.ofText? letters := by
  have each : ∀ entry ∈ reserved, entry.1 = String.ofList entry.2.text := by decide +kernel
  have all (k : Keyword) : reserved.lookup (String.ofList k.text) = some k := by cases k <;> decide +kernel
  ext k
  rw [Keyword.ofText_eq_some]
  constructor
  · intro found
    obtain ⟨front,back,listed,_⟩ := List.lookup_eq_some_iff.mp found
    have member : (String.ofList letters,k) ∈ reserved := listed ▸ List.mem_append_right front List.mem_cons_self
    exact String.ofList_injective (each _ member)
  · intro same
    exact same ▸ all k

theorem mem_many {p : Char → Bool} {text : List Char} :
    text ∈ (oneOf p)∗ ↔ ∀ c ∈ text, p c = true := by
  rw [Language.mem_kstar]
  constructor
  · intro spelled c member
    obtain ⟨parts,rfl,each⟩ := spelled
    obtain ⟨part,present,inside⟩ := List.mem_flatten.mp member
    obtain ⟨d,holds,rfl⟩ := each part present
    rwa [List.mem_singleton.mp inside]
  · intro all
    refine ⟨text.map ([·]),by simp [← List.flatMap_def],?_⟩
    intro part present
    obtain ⟨c,member,rfl⟩ := List.mem_map.mp present
    exact ⟨c,all c member,rfl⟩

theorem mem_exactly_mul {front text : List Char} {l : Language Char} :
    text ∈ exactly front * l ↔ ∃ back ∈ l, text = front ++ back := by
  rw [Language.mem_mul]
  constructor
  · intro spelled
    obtain ⟨_,rfl,back,member,rfl⟩ := spelled
    exact ⟨back,member,rfl⟩
  · intro spelled
    obtain ⟨back,member,rfl⟩ := spelled
    exact ⟨front,rfl,back,member,rfl⟩

theorem mem_headed {p q : Char → Bool} {text : List Char} :
    text ∈ oneOf p * (oneOf q)∗ ↔ ∃ c rest, text = c :: rest ∧ p c = true ∧ ∀ d ∈ rest, q d = true := by
  rw [Language.mem_mul]
  constructor
  · intro spelled
    obtain ⟨_,⟨c,first,rfl⟩,rest,others,rfl⟩ := spelled
    exact ⟨c,rest,rfl,first,mem_many.mp others⟩
  · intro spelled
    obtain ⟨c,rest,rfl,first,others⟩ := spelled
    exact ⟨[c],⟨c,first,rfl⟩,rest,mem_many.mpr others,rfl⟩

theorem mem_digits {text : List Char} :
    text ∈ digits ↔ text ≠ [] ∧ ∀ c ∈ text, c.isDigit = true := by
  rw [digits,mem_headed]
  constructor
  · intro spelled
    obtain ⟨c,rest,rfl,first,others⟩ := spelled
    exact ⟨List.cons_ne_nil c rest,List.forall_mem_cons.mpr ⟨first,others⟩⟩
  · intro spelled
    obtain ⟨nonempty,all⟩ := spelled
    obtain ⟨c,rest,rfl⟩ := List.exists_cons_of_ne_nil nonempty
    exact ⟨c,rest,rfl,List.forall_mem_cons.mp all⟩

theorem mem_number {text : List Char} :
    text ∈ number ↔ ∃ whole fraction, text = Segment.numberText whole fraction ∧ whole ≠ [] ∧
      (∀ c ∈ whole, c.isDigit = true) ∧ ∀ c ∈ fraction, c.isDigit = true := by
  rw [number,Language.mem_mul]
  constructor
  · intro spelled
    obtain ⟨whole,inside,tail,ending,rfl⟩ := spelled
    obtain ⟨nonempty,all⟩ := mem_digits.mp inside
    rcases (Language.mem_add _ _ _).mp ending with ended | point
    · exact ⟨whole,[],by simp [(Language.mem_one _).mp ended,Segment.numberText],nonempty,all,by simp⟩
    · obtain ⟨fraction,places,rfl⟩ := mem_exactly_mul.mp point
      obtain ⟨more,others⟩ := mem_digits.mp places
      obtain ⟨d,fraction,rfl⟩ := List.exists_cons_of_ne_nil more
      exact ⟨whole,d :: fraction,rfl,nonempty,all,others⟩
  · intro spelled
    obtain ⟨whole,fraction,rfl,nonempty,all,others⟩ := spelled
    refine ⟨whole,mem_digits.mpr ⟨nonempty,all⟩,?_⟩
    cases fraction with
    | nil => exact ⟨[],(Language.mem_add _ _ _).mpr (.inl rfl),by simp [Segment.numberText]⟩
    | cons d fraction =>
      have places : d :: fraction ∈ digits := mem_digits.mpr ⟨List.cons_ne_nil _ _,others⟩
      exact ⟨'.' :: d :: fraction,(Language.mem_add _ _ _).mpr (.inr (mem_exactly_mul.mpr ⟨_,places,rfl⟩)),rfl⟩

theorem numeralValue_text {whole fraction : List Char} (digits : ∀ c ∈ whole, c.isDigit = true) :
    numeralValue (Segment.numberText whole fraction) = (Decimal.ofDigits whole fraction).toBinary64 := by
  have plain : ∀ c ∈ whole, (c != '.') = true := by
    intro c member
    have digit := digits c member
    rw [bne_iff_ne]
    intro same
    rw [same] at digit
    cases digit
  cases fraction with
  | nil =>
    have run := takeWhile_stops plain (stops_nil _)
    have rest := dropWhile_stops plain (stops_nil _)
    rw [List.append_nil] at run rest
    simp only [numeralValue,Segment.numberText,run,rest,List.drop_nil]
  | cons d fraction =>
    have point : Stops (· != '.') ('.' :: d :: fraction) := stops_cons.mpr rfl
    simp only [numeralValue,Segment.numberText,takeWhile_stops plain point,dropWhile_stops plain point,
      List.drop_succ_cons,List.drop_zero]

theorem mem_unquoted {text : List Char} : text ∈ unquoted ↔ ∀ c ∈ text, (c != '"') = true := mem_many

theorem mem_openString {text : List Char} :
    text ∈ openString ↔ ∃ body, text = '"' :: body ∧ ∀ c ∈ body, (c != '"') = true := by
  rw [openString,mem_exactly_mul]
  constructor
  · intro spelled
    obtain ⟨body,inside,rfl⟩ := spelled
    exact ⟨body,rfl,mem_unquoted.mp inside⟩
  · intro spelled
    obtain ⟨body,rfl,inside⟩ := spelled
    exact ⟨body,mem_unquoted.mpr inside,rfl⟩

theorem mem_string {text : List Char} :
    text ∈ string ↔ ∃ body, text = '"' :: body ++ ['"'] ∧ ∀ c ∈ body, (c != '"') = true := by
  rw [string,Language.mem_mul]
  constructor
  · intro spelled
    obtain ⟨front,opened,_,rfl,rfl⟩ := spelled
    obtain ⟨body,rfl,inside⟩ := mem_openString.mp opened
    exact ⟨body,rfl,inside⟩
  · intro spelled
    obtain ⟨body,rfl,inside⟩ := spelled
    exact ⟨'"' :: body,mem_openString.mpr ⟨body,rfl,inside⟩,['"'],rfl,rfl⟩

theorem mem_lineComment {text : List Char} :
    text ∈ lineComment ↔ ∃ body, text = '/' :: '/' :: body ∧ ∀ c ∈ body, (c != '\n') = true := by
  rw [lineComment,mem_exactly_mul]
  constructor
  · intro spelled
    obtain ⟨body,inside,rfl⟩ := spelled
    exact ⟨body,rfl,mem_many.mp inside⟩
  · intro spelled
    obtain ⟨body,rfl,inside⟩ := spelled
    exact ⟨body,mem_many.mpr inside,rfl⟩

theorem mem_word {text : List Char} : text ∈ word ↔ IsWord text := by
  rw [word,isLetter_eq]
  simp only [← isWordPart_eq]
  exact mem_headed

theorem mem_openComment {text : List Char} :
    text ∈ openComment ↔ ∃ body, text = '/' :: '*' :: body ∧ ¬ HoldsClosing body := by
  constructor
  · intro spelled
    obtain ⟨body,rfl,never⟩ := spelled
    refine ⟨body,rfl,?_⟩
    intro closes
    obtain ⟨front,back,same⟩ := closes
    exact never front back same.symm
  · intro spelled
    obtain ⟨body,rfl,never⟩ := spelled
    exact ⟨body,rfl,fun front back same => never ⟨front,back,same.symm⟩⟩

theorem mem_blockComment {text : List Char} :
    text ∈ blockComment ↔
      ∃ body, text = '/' :: '*' :: body ++ ['*','/'] ∧ ¬ HoldsClosing (body ++ ['*']) := by
  constructor
  · intro spelled
    obtain ⟨body,rfl,first⟩ := spelled
    refine ⟨body,rfl,?_⟩
    intro closes
    obtain ⟨front,back,same⟩ := closes
    have early : body ++ ['*','/'] = front ++ ['*','/'] ++ (back ++ ['/']) := by
      rw [← List.append_assoc,same,List.append_assoc]
      rfl
    exact List.append_ne_nil_of_right_ne_nil back (by simp) (first front (back ++ ['/']) early)
  · intro spelled
    obtain ⟨body,rfl,never⟩ := spelled
    refine ⟨body,rfl,?_⟩
    intro front back same
    rcases List.eq_nil_or_concat back with empty | ⟨back,c,rfl⟩
    · exact empty
    · have cut : body ++ ['*'] ++ ['/'] = front ++ ['*','/'] ++ back ++ [c] := by simpa using same
      exact absurd ⟨front,back,(List.append_inj' cut rfl).1.symm⟩ never

theorem mem_lexeme {text : List Char} :
    text ∈ lexeme ↔ ((text ∈ operator ∨ text ∈ word) ∨ text ∈ number) ∨ text ∈ string := by
  rw [lexeme,Language.mem_add,Language.mem_add,Language.mem_add]

end ScriptLexer.Grammar
