import ScriptLexer.Segment.Basic

-- Where a segment ends. `StandsBefore` says of a segment and the text behind it,
-- without any reading, that the segment ends there; reading finds this segment and no
-- other. What a scan does at a cut follows from the few characters it looks at here.
namespace ScriptLexer

def Stops (p : Char → Bool) (text : List Char) : Prop := ∀ c ∈ text.head?, p c = false

def HoldsClosing (text : List Char) : Prop := ['*','/'] <:+: text

def PointFollows (text : List Char) : Prop := ∃ d rest, text = '.' :: d :: rest ∧ d.isDigit = true

def IsWord (letters : List Char) : Prop :=
  ∃ c rest, letters = c :: rest ∧ isWordStart c = true ∧ ∀ d ∈ rest, isWordPart d = true

structure IsStray (c : Char) : Prop where
  notBlank : isBlank c = false
  notDigit : c.isDigit = false
  notLetter : isWordStart c = false
  notQuote : c ≠ '"'
  notOperator : Operator.ofChar? c = none

-- The star of the opening mark cannot close a comment, but the last character inside
-- and the star of the closing mark are read together: hence the star behind the body.
def Segment.StandsBefore (piece : Segment) (after : List Char) : Prop :=
  match piece with
  | .blank c => isBlank c = true
  | .lineComment body => (∀ c ∈ body, (c != '\n') = true) ∧ Stops (· != '\n') after
  | .blockComment body => ¬ HoldsClosing (body ++ ['*'])
  | .openComment body => ¬ HoldsClosing body ∧ after = []
  | .string body => ∀ c ∈ body, (c != '"') = true
  | .openString body => (∀ c ∈ body, (c != '"') = true) ∧ after = []
  | .number whole fraction =>
    (whole ≠ [] ∧ (∀ c ∈ whole, c.isDigit = true) ∧ ∀ c ∈ fraction, c.isDigit = true) ∧
      Stops Char.isDigit after ∧ (fraction = [] → ¬ PointFollows after)
  | .word letters => IsWord letters ∧ Stops isWordPart after
  | .operator o =>
    (o.withEqual?.isSome = true → Stops (· == '=') after) ∧
      (o = .slash → Stops (fun c => c == '/' || c == '*') after)
  | .stray c => IsStray c

theorem stops_nil (p : Char → Bool) : Stops p [] := by
  intro c head
  cases head

theorem stops_cons {p : Char → Bool} {c : Char} {rest : List Char} :
    Stops p (c :: rest) ↔ p c = false := by simp [Stops]

theorem stops_dropWhile (p : Char → Bool) (text : List Char) : Stops p (text.dropWhile p) := by
  intro c head
  have stopped := List.head?_dropWhile_not p text
  rw [Option.mem_def.mp head] at stopped
  exact stopped

theorem takeWhile_stops {p : Char → Bool} {body after : List Char}
    (inside : ∀ c ∈ body, p c = true) (stops : Stops p after) : (body ++ after).takeWhile p = body := by
  rw [List.takeWhile_append_of_pos inside]
  cases after with
  | nil => simp
  | cons c rest => simp [stops_cons.mp stops]

theorem dropWhile_stops {p : Char → Bool} {body after : List Char}
    (inside : ∀ c ∈ body, p c = true) (stops : Stops p after) : (body ++ after).dropWhile p = after := by
  rw [List.dropWhile_append_of_pos inside]
  cases after with
  | nil => rfl
  | cons c rest => simp [stops_cons.mp stops]

theorem inside_takeWhile (p : Char → Bool) (text : List Char) : ∀ c ∈ text.takeWhile p, p c = true :=
  List.all_eq_true.mp List.all_takeWhile

theorem holdsClosing_nil : ¬ HoldsClosing [] := by simp [HoldsClosing]

theorem holdsClosing_cons {c : Char} {text : List Char} :
    HoldsClosing (c :: text) ↔ (c = '*' ∧ text.head? = some '/') ∨ HoldsClosing text := by
  rw [HoldsClosing,List.infix_cons_iff,List.cons_prefix_cons]
  cases text with
  | nil => simp [HoldsClosing]
  | cons d text => simp [HoldsClosing,eq_comm]

theorem closing_apart {c : Char} {body : List Char} (after : List Char)
    (first : ¬ HoldsClosing (c :: (body ++ ['*']))) (rest : List Char) (star : c = '*') :
    body ++ '*' :: '/' :: after ≠ '/' :: rest := by
  intro slash
  refine first (holdsClosing_cons.mpr (.inl ⟨star,?_⟩))
  cases body with
  | nil => simp at slash
  | cons d body => simpa using (List.cons.inj slash).1

theorem isBlank_iff {c : Char} : isBlank c = true ↔ c ∈ [' ','\r','\t','\n'] := by
  simp [isBlank,or_assoc]

theorem blank_outside {p : Char → Bool} (outside : [' ','\r','\t','\n'].any p = false) (c : Char)
    (blank : isBlank c = true) : p c = false := by
  have apart := List.any_eq_false.mp outside c (isBlank_iff.mp blank)
  exact eq_false_of_ne_true apart

theorem notBlank_inside {p : Char → Bool} {c : Char} (outside : [' ','\r','\t','\n'].any p = false)
    (inside : p c = true) : isBlank c = false := by
  cases blank : isBlank c with
  | false => rfl
  | true =>
    rw [blank_outside outside c blank] at inside
    cases inside

theorem isBlank_of_digit {c : Char} (digit : c.isDigit = true) : isBlank c = false :=
  notBlank_inside rfl digit

theorem isBlank_of_letter {c : Char} (letter : isWordStart c = true) : isBlank c = false :=
  notBlank_inside rfl letter

theorem isDigit_of_letter {c : Char} (letter : isWordStart c = true) : c.isDigit = false := by
  -- The digits end below the letters of either case.
  have above (least : UInt32) (apart : ¬ least ≤ '9'.val) (atLeast : least ≤ c.val) :
      c.isDigit = false := by
    apply eq_false_of_ne_true
    intro digit
    have below : c.val ≤ '9'.val := of_decide_eq_true (Bool.and_eq_true_iff.mp digit).2
    exact apart (UInt32.le_trans atLeast below)
  rcases Bool.or_eq_true_iff.mp letter with alpha | line
  · rcases Bool.or_eq_true_iff.mp alpha with upper | lower
    · exact above 'A'.val (by decide) (of_decide_eq_true upper).1
    · exact above 'a'.val (by decide) (of_decide_eq_true (Bool.and_eq_true_iff.mp lower).1)
  · rw [eq_of_beq line]
    rfl

theorem isWordPart_eq (c : Char) : isWordPart c = (isWordStart c || c.isDigit) := by
  rw [isWordPart,isWordStart,Char.isAlphanum,Bool.or_assoc,Bool.or_assoc,Bool.or_comm c.isDigit]

theorem wordPart_of_letter {c : Char} (letter : isWordStart c = true) : isWordPart c = true := by
  rw [isWordStart,Bool.or_eq_true] at letter
  rw [isWordPart,Char.isAlphanum,Bool.or_eq_true,Bool.or_eq_true]
  rcases letter with alpha | line
  · exact .inl (.inl alpha)
  · exact .inr line

theorem wordPart_of_digit {c : Char} (digit : c.isDigit = true) : isWordPart c = true := by
  rw [isWordPart,Char.isAlphanum,digit,Bool.or_true,Bool.true_or]

theorem mem_numberText {whole fraction : List Char} {c : Char}
    (member : c ∈ Segment.numberText whole fraction) : c ∈ whole ∨ c = '.' ∨ c ∈ fraction := by
  cases fraction with
  | nil => exact .inl member
  | cons d fraction =>
    rcases List.mem_append.mp member with front | back
    · exact .inl front
    · exact .inr (List.mem_cons.mp back)

theorem IsStray.notWordPart {c : Char} (stray : IsStray c) : isWordPart c = false := by
  rw [isWordPart_eq,stray.notLetter,stray.notDigit]
  rfl

theorem IsStray.ne_operator {c d : Char} {o : Operator} (stray : IsStray c)
    (found : Operator.ofChar? d = some o) : c ≠ d := by
  rintro rfl
  rw [stray.notOperator] at found
  cases found

theorem IsStray.notSlash {c : Char} (stray : IsStray c) : c ≠ '/' := stray.ne_operator (o := .slash) rfl

theorem IsStray.notFeed {c : Char} (stray : IsStray c) : c ≠ '\n' := by
  intro feed
  have plain := stray.notBlank
  rw [feed] at plain
  cases plain

theorem operator_apart {c : Char} {o : Operator} (found : Operator.ofChar? c = some o) :
    isBlank c = false ∧ c.isDigit = false ∧ isWordStart c = false ∧ c ≠ '"' ∧ (c = '/' → o = .slash) := by
  have written := Operator.text_of_ofChar found
  cases o <;> simp only [Operator.text,List.cons.injEq,and_true,reduceCtorEq,and_false] at written <;>
    subst written <;> decide

theorem joined_apart {o longer : Operator} (joined : o.withEqual? = some longer) :
    longer.withEqual? = none ∧ longer ≠ .slash := by
  cases o <;> simp only [Operator.withEqual?,reduceCtorEq,Option.some.injEq] at joined <;>
    subst joined <;> decide

theorem operator_spelled (o : Operator) :
    (∃ c, o.text = [c] ∧ Operator.ofChar? c = some o) ∨
      ∃ c shorter, o.text = [c,'='] ∧ c ≠ '/' ∧ Operator.ofChar? c = some shorter ∧
        shorter.withEqual? = some o := by
  cases o with
  | bangEqual => exact .inr ⟨'!',.bang,rfl,by decide,rfl,rfl⟩
  | equalEqual => exact .inr ⟨'=',.equal,rfl,by decide,rfl,rfl⟩
  | greaterEqual => exact .inr ⟨'>',.greater,rfl,by decide,rfl,rfl⟩
  | lessEqual => exact .inr ⟨'<',.less,rfl,by decide,rfl,rfl⟩
  | _ => exact .inl ⟨_,rfl,rfl⟩

theorem mem_operator {o : Operator} {c : Char} (member : c ∈ o.text) : ∃ single, Operator.ofChar? c = some single := by
  rcases operator_spelled o with ⟨d,spelled,found⟩ | ⟨d,shorter,spelled,_,found,_⟩
  · rw [spelled,List.mem_singleton] at member
    exact ⟨o,member ▸ found⟩
  · rw [spelled,List.mem_cons,List.mem_singleton] at member
    rcases member with rfl | rfl
    · exact ⟨shorter,found⟩
    · exact ⟨.equal,rfl⟩

end ScriptLexer
