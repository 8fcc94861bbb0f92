import ScriptLexer.Proofs.Grammar.Rule
import ScriptLexer.Proofs.Scan.Lexemes

namespace ScriptLexer

open Grammar

structure Lexeme where
  text : List Char
  wellFormed : text ∈ Grammar.lexeme

structure Gap where
  text : List Char
  blank : ∀ c ∈ text, isBlank c = true

structure Spaced where
  lexeme : Lexeme
  gap : Gap

def layout (line : List Spaced) : List Char := line.flatMap fun s => s.lexeme.text ++ s.gap.text

-- The first lexeme, written directly before the others, would be read into them.
def Collides (first : List Char) (next : Spaced) (more : List Spaced) : Prop :=
  (first ∈ word ∧ (next.lexeme.text ∈ word ∨ next.lexeme.text ∈ number)) ∨
  (first ∈ number ∧ next.lexeme.text ∈ number) ∨
  (first ∈ digits ∧ next.lexeme.text = ['.'] ∧ next.gap.text = [] ∧
    ∃ third ∈ more.head?, third.lexeme.text ∈ number) ∨
  (first ∈ [['!'],['='],['<'],['>']] ∧ (next.lexeme.text = ['='] ∨ next.lexeme.text = ['=','='])) ∨
  (first = ['/'] ∧ (next.lexeme.text = ['/'] ∨ next.lexeme.text = ['*']))

def Glued (s : Spaced) (behind : List Spaced) : Prop :=
  s.gap.text = [] ∧ ∃ next more, behind = next :: more ∧ Collides s.lexeme.text next more

theorem word_head {c : Char} {rest : List Char} (spelled : c :: rest ∈ word) : isWordStart c = true := by
  obtain ⟨d,others,same,letter,_⟩ := mem_word.mp spelled
  rwa [(List.cons.inj same).1]

theorem number_head {c : Char} {rest : List Char} (spelled : c :: rest ∈ number) : c.isDigit = true := by
  obtain ⟨whole,fraction,same,nonempty,digits,_⟩ := mem_number.mp spelled
  obtain ⟨d,whole,rfl⟩ := List.exists_cons_of_ne_nil nonempty
  have first : c = d := by cases fraction <;> exact (List.cons.inj same).1
  rw [first]
  exact digits d (by simp)

inductive Heads (c : Char) (text : List Char) : Prop where
  | word (letter : isWordStart c = true) (spelled : text ∈ Grammar.word)
  | number (digit : c.isDigit = true) (spelled : text ∈ Grammar.number)
  | string (quote : c = '"')
  | operator (o shorter : Operator) (written : text = o.text) (found : Operator.ofChar? c = some shorter)

theorem lexeme_heads {text : List Char} (wellFormed : text ∈ Grammar.lexeme) :
    ∃ c rest, text = c :: rest ∧ Heads c text := by
  rcases mem_lexeme.mp wellFormed with ((spelled | spelled) | spelled) | spelled
  · obtain ⟨o,rfl⟩ := operator_iff.mp spelled
    rcases operator_spelled o with ⟨c,written,found⟩ | ⟨c,shorter,written,_,found,_⟩
    · exact ⟨c,[],written,.operator o o rfl found⟩
    · exact ⟨c,['='],written,.operator o shorter rfl found⟩
  · obtain ⟨c,rest,rfl,letter,_⟩ := mem_word.mp spelled
    exact ⟨c,rest,rfl,.word letter spelled⟩
  · obtain ⟨whole,fraction,rfl,nonempty,digits,_⟩ := mem_number.mp spelled
    obtain ⟨c,whole,rfl⟩ := List.exists_cons_of_ne_nil nonempty
    have digit := digits c (by simp)
    cases fraction with
    | nil => exact ⟨c,whole,rfl,.number digit spelled⟩
    | cons d fraction => exact ⟨c,_,rfl,.number digit spelled⟩
  · obtain ⟨body,rfl,_⟩ := mem_string.mp spelled
    exact ⟨'"',_,rfl,.string rfl⟩

theorem lexeme_notBlank {c : Char} {rest : List Char} (wellFormed : c :: rest ∈ Grammar.lexeme) :
    isBlank c = false := by
  obtain ⟨d,others,same,heads⟩ := lexeme_heads wellFormed
  rw [(List.cons.inj same).1]
  cases heads with
  | word letter spelled => exact isBlank_of_letter letter
  | number digit spelled => exact isBlank_of_digit digit
  | string quote =>
    rw [quote]
    rfl
  | operator o shorter written found => exact (operator_apart found).1

theorem stops_wordPart {text : List Char} (wellFormed : text ∈ Grammar.lexeme) :
    Stops isWordPart text ↔ ¬ (text ∈ word ∨ text ∈ number) := by
  obtain ⟨c,rest,rfl,heads⟩ := lexeme_heads wellFormed
  rw [stops_cons,isWordPart_eq,Bool.or_eq_false_iff]
  constructor
  · intro apart spelled
    rcases spelled with spelled | spelled
    · rw [word_head spelled] at apart
      cases apart.1
    · rw [number_head spelled] at apart
      cases apart.2
  · intro neither
    cases heads with
    | word letter spelled => exact absurd (.inl spelled) neither
    | number digit spelled => exact absurd (.inr spelled) neither
    | string quote =>
      rw [quote]
      exact ⟨rfl,rfl⟩
    | operator o shorter written found => exact ⟨(operator_apart found).2.2.1,(operator_apart found).2.1⟩

theorem stops_digit {text : List Char} (wellFormed : text ∈ Grammar.lexeme) :
    Stops Char.isDigit text ↔ text ∉ number := by
  obtain ⟨c,rest,rfl,heads⟩ := lexeme_heads wellFormed
  rw [stops_cons]
  constructor
  · intro apart spelled
    rw [number_head spelled] at apart
    cases apart
  · intro other
    cases heads with
    | word letter spelled => exact isDigit_of_letter letter
    | number digit spelled => exact absurd spelled other
    | string quote =>
      rw [quote]
      rfl
    | operator o shorter written found => exact (operator_apart found).2.1

theorem operator_of_head {c : Char} {rest : List Char} {o : Operator}
    (wellFormed : c :: rest ∈ Grammar.lexeme) (found : Operator.ofChar? c = some o) :
    ∃ longer : Operator, c :: rest = longer.text := by
  obtain ⟨notBlank,notDigit,notLetter,notQuote,_⟩ := operator_apart found
  obtain ⟨d,others,same,heads⟩ := lexeme_heads wellFormed
  rw [← (List.cons.inj same).1] at heads
  cases heads with
  | word letter spelled =>
    rw [letter] at notLetter
    cases notLetter
  | number digit spelled =>
    rw [digit] at notDigit
    cases notDigit
  | string quote => exact absurd quote notQuote
  | operator longer shorter written _ => exact ⟨longer,written⟩

theorem operator_tail {c : Char} {rest : List Char} {o : Operator}
    (wellFormed : c :: rest ∈ Grammar.lexeme) (found : Operator.ofChar? c = some o) :
    rest = [] ∨ rest = ['='] ∧ o.withEqual?.isSome = true := by
  obtain ⟨longer,written⟩ := operator_of_head wellFormed found
  rcases operator_spelled longer with ⟨d,spelled,_⟩ | ⟨d,shorter,spelled,_,begins,joined⟩
  · exact .inl (List.cons.inj (written.trans spelled)).2
  · obtain ⟨same,tail⟩ := List.cons.inj (written.trans spelled)
    rw [same,begins] at found
    cases found
    exact .inr ⟨tail,Option.isSome_of_eq_some joined⟩

theorem operator_alone {c : Char} {rest : List Char} {o : Operator}
    (wellFormed : c :: rest ∈ Grammar.lexeme) (found : Operator.ofChar? c = some o)
    (single : o.withEqual? = none) : rest = [] := by
  rcases operator_tail wellFormed found with alone | ⟨_,joins⟩
  · exact alone
  · rw [single] at joins
    cases joins

theorem stops_equal {text : List Char} (wellFormed : text ∈ Grammar.lexeme) :
    Stops (· == '=') text ↔ ¬ (text = ['='] ∨ text = ['=','=']) := by
  obtain ⟨c,rest,rfl,_⟩ := lexeme_heads wellFormed
  rw [stops_cons,beq_eq_false_iff_ne]
  constructor
  · intro apart spelled
    rcases spelled with same | same <;> exact apart (List.cons.inj same).1
  · intro neither same
    subst same
    rcases operator_tail (o := .equal) wellFormed rfl with alone | ⟨joined,_⟩
    · exact neither (.inl (congrArg _ alone))
    · exact neither (.inr (congrArg _ joined))

theorem stops_slash {text : List Char} (wellFormed : text ∈ Grammar.lexeme) :
    Stops (fun c => c == '/' || c == '*') text ↔ ¬ (text = ['/'] ∨ text = ['*']) := by
  obtain ⟨c,rest,rfl,_⟩ := lexeme_heads wellFormed
  rw [stops_cons,Bool.or_eq_false_iff,beq_eq_false_iff_ne,beq_eq_false_iff_ne]
  constructor
  · intro apart spelled
    rcases spelled with same | same
    · exact apart.1 (List.cons.inj same).1
    · exact apart.2 (List.cons.inj same).1
  · intro neither
    refine ⟨?_,?_⟩
    · intro same
      subst same
      have alone := operator_alone (o := .slash) wellFormed rfl rfl
      exact neither (.inl (congrArg _ alone))
    · intro same
      subst same
      have alone := operator_alone (o := .star) wellFormed rfl rfl
      exact neither (.inr (congrArg _ alone))

theorem layout_cons (s : Spaced) (behind : List Spaced) :
    layout (s :: behind) = s.lexeme.text ++ (s.gap.text ++ layout behind) := by
  rw [layout,List.flatMap_cons,List.append_assoc]
  rfl

theorem stops_behind {p : Char → Bool} (blank : ∀ c, isBlank c = true → p c = false)
    (gap : Gap) (behind : List Spaced) :
    Stops p (gap.text ++ layout behind) ↔
      (gap.text = [] → ∀ next ∈ behind.head?, Stops p next.lexeme.text) := by
  cases space : gap.text with
  | cons c rest =>
    have first := gap.blank c (space ▸ List.mem_cons_self)
    simp [stops_cons,blank c first]
  | nil =>
    cases behind with
    | nil => simp [layout,stops_nil]
    | cons next more =>
      obtain ⟨c,rest,written,_⟩ := lexeme_heads next.lexeme.wellFormed
      simp [layout_cons,written,stops_cons]

theorem pointFollows_iff {text : List Char} :
    PointFollows text ↔ ∃ rest, text = '.' :: rest ∧ ¬ Stops Char.isDigit rest := by
  constructor
  · intro follows
    obtain ⟨d,rest,same,digit⟩ := follows
    refine ⟨d :: rest,same,?_⟩
    rw [stops_cons,digit]
    intro stopped
    cases stopped
  · intro follows
    obtain ⟨rest,same,goes⟩ := follows
    cases rest with
    | nil => exact absurd (stops_nil _) goes
    | cons d rest =>
      rw [stops_cons,Bool.not_eq_false] at goes
      exact ⟨d,rest,same,goes⟩

theorem digit_behind (gap : Gap) (behind : List Spaced) :
    ¬ Stops Char.isDigit (gap.text ++ layout behind) ↔
      gap.text = [] ∧ ∃ next ∈ behind.head?, next.lexeme.text ∈ number := by
  rw [stops_behind (blank_outside rfl),Classical.not_imp]
  simp only [not_forall,stops_digit (Lexeme.wellFormed _),not_not,exists_prop]

theorem point_behind (gap : Gap) (behind : List Spaced) :
    PointFollows (gap.text ++ layout behind) ↔
      gap.text = [] ∧ ∃ next more, behind = next :: more ∧ next.lexeme.text = ['.'] ∧
        next.gap.text = [] ∧ ∃ third ∈ more.head?, third.lexeme.text ∈ number := by
  rw [pointFollows_iff]
  constructor
  · intro follows
    obtain ⟨rest,same,goes⟩ := follows
    cases space : gap.text with
    | cons c others =>
      have first := gap.blank c (space ▸ List.mem_cons_self)
      rw [space] at same
      rw [(List.cons.inj same).1] at first
      cases first
    | nil =>
      refine ⟨rfl,?_⟩
      rw [space,List.nil_append] at same
      cases behind with
      | nil => cases same
      | cons next more =>
        obtain ⟨c,others,written,_⟩ := lexeme_heads next.lexeme.wellFormed
        rw [layout_cons,written] at same
        obtain ⟨rfl,tail⟩ := List.cons.inj same
        have alone := operator_alone (o := .dot) (written ▸ next.lexeme.wellFormed) rfl rfl
        subst alone
        rw [← tail] at goes
        exact ⟨next,more,rfl,written,(digit_behind next.gap more).mp goes⟩
  · intro glued
    obtain ⟨tight,next,more,rfl,written,goes⟩ := glued
    refine ⟨next.gap.text ++ layout more,?_,(digit_behind next.gap more).mpr goes⟩
    rw [tight,layout_cons,written]
    rfl

theorem digits_number {text : List Char} (spelled : text ∈ digits) : text ∈ number := by
  obtain ⟨nonempty,all⟩ := mem_digits.mp spelled
  exact mem_number.mpr ⟨text,[],rfl,nonempty,all,by simp⟩

theorem digits_numberText {whole fraction : List Char} (nonempty : whole ≠ [])
    (all : ∀ c ∈ whole, c.isDigit = true) : Segment.numberText whole fraction ∈ digits ↔ fraction = [] := by
  cases fraction with
  | nil => exact ⟨fun _ => rfl,fun _ => mem_digits.mpr ⟨nonempty,all⟩⟩
  | cons d fraction =>
    have point : ¬ ∀ c ∈ Segment.numberText whole (d :: fraction), c.isDigit = true := by
      intro digits
      have dot := digits '.' (List.mem_append_right whole List.mem_cons_self)
      cases dot
    simp [mem_digits,point]

theorem collides_outside {first : List Char} {next : Spaced} {more : List Spaced} {c : Char} {rest : List Char}
    (written : first = c :: rest) (apart : c ∉ ['!','=','<','>','/']) :
    Collides first next more ↔
      (first ∈ word ∧ (next.lexeme.text ∈ word ∨ next.lexeme.text ∈ number)) ∨
      (first ∈ number ∧ next.lexeme.text ∈ number) ∨
      (first ∈ digits ∧ next.lexeme.text = ['.'] ∧ next.gap.text = [] ∧
        ∃ third ∈ more.head?, third.lexeme.text ∈ number) := by
  have notJoining : first ∉ [['!'],['='],['<'],['>']] := by
    intro member
    rw [written] at member
    simp only [List.mem_cons,List.cons.injEq,List.not_mem_nil,or_false] at member
    rcases member with ⟨rfl,_⟩ | ⟨rfl,_⟩ | ⟨rfl,_⟩ | ⟨rfl,_⟩ <;> exact apart (by decide)
  have notSlash : first ≠ ['/'] := by
    intro same
    rw [(List.cons.inj (written.symm.trans same)).1] at apart
    exact apart (by decide)
  simp only [Collides,notJoining,notSlash,false_and,or_false]

theorem collides_word {first : List Char} {next : Spaced} {more : List Spaced} (spelled : first ∈ word) :
    Collides first next more ↔ next.lexeme.text ∈ word ∨ next.lexeme.text ∈ number := by
  obtain ⟨c,rest,rfl,letter,_⟩ := mem_word.mp spelled
  have apart : c ∉ ['!','=','<','>','/'] := by
    intro member
    have markless : ['!','=','<','>','/'].any isWordStart = false := rfl
    exact List.any_eq_false.mp markless c member letter
  have notNumber : c :: rest ∉ number := by
    intro number
    have digit := number_head number
    rw [isDigit_of_letter letter] at digit
    cases digit
  have notDigits : c :: rest ∉ digits := fun all => notNumber (digits_number all)
  rw [collides_outside rfl apart]
  simp only [spelled,notNumber,notDigits,true_and,false_and,or_false]

theorem collides_number {first : List Char} {next : Spaced} {more : List Spaced} (spelled : first ∈ number) :
    Collides first next more ↔ next.lexeme.text ∈ number ∨ (first ∈ digits ∧ next.lexeme.text = ['.'] ∧
      next.gap.text = [] ∧ ∃ third ∈ more.head?, third.lexeme.text ∈ number) := by
  obtain ⟨c,rest,rfl,_⟩ := lexeme_heads (mem_lexeme.mpr (.inl (.inr spelled)))
  have digit := number_head spelled
  have apart : c ∉ ['!','=','<','>','/'] := by
    intro member
    have markless : ['!','=','<','>','/'].any Char.isDigit = false := rfl
    exact List.any_eq_false.mp markless c member digit
  have notWord : c :: rest ∉ word := by
    intro word
    rw [isDigit_of_letter (word_head word)] at digit
    cases digit
  rw [collides_outside rfl apart]
  simp only [spelled,notWord,true_and,false_and,false_or]

theorem collides_string {first : List Char} {next : Spaced} {more : List Spaced} (spelled : first ∈ string) :
    ¬ Collides first next more := by
  obtain ⟨body,rfl,_⟩ := mem_string.mp spelled
  have notWord : '"' :: body ++ ['"'] ∉ word := by
    intro word
    cases word_head word
  have notNumber : '"' :: body ++ ['"'] ∉ number := by
    intro number
    cases number_head number
  have notDigits : '"' :: body ++ ['"'] ∉ digits := fun all => notNumber (digits_number all)
  have written : '"' :: body ++ ['"'] = '"' :: (body ++ ['"']) := rfl
  rw [collides_outside written (by decide)]
  simp only [notWord,notNumber,notDigits,false_and,or_self,not_false_eq_true]

theorem collides_operator (o : Operator) {next : Spaced} {more : List Spaced} :
    Collides o.text next more ↔
      (o.withEqual?.isSome = true ∧ (next.lexeme.text = ['='] ∨ next.lexeme.text = ['=','='])) ∨
      (o = .slash ∧ (next.lexeme.text = ['/'] ∨ next.lexeme.text = ['*'])) := by
  have notWord : o.text ∉ word := by
    intro word
    cases o <;> cases word_head word
  have notNumber : o.text ∉ number := by
    intro number
    cases o <;> cases number_head number
  have notDigits : o.text ∉ digits := fun all => notNumber (digits_number all)
  have joins : o.text ∈ [['!'],['='],['<'],['>']] ↔ o.withEqual?.isSome = true := by cases o <;> decide
  have slash : o.text = ['/'] ↔ o = .slash := by cases o <;> decide
  simp only [Collides,notWord,notNumber,notDigits,joins,slash,false_and,false_or]

end ScriptLexer
