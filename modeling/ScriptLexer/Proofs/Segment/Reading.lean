import ScriptLexer.Proofs.Segment.Boundary
import ScriptLexer.Segment.Read

-- Reading against the boundaries: what is read stands before the rest of the text, and
-- a segment that stands before a text is what is read in front of it.
namespace ScriptLexer.Segment

theorem read_blank {c : Char} (rest : List Char) (blank : isBlank c = true) :
    read c rest = (.blank c,rest) := by
  simp only [read,blank,if_true]

theorem read_digit {c : Char} (rest : List Char) (digit : c.isDigit = true) :
    read c rest = readNumber c rest := by
  simp only [read,isBlank_of_digit digit,digit,if_true,Bool.false_eq_true,if_false]

theorem read_letter {c : Char} (rest : List Char) (letter : isWordStart c = true) :
    read c rest = readWord c rest := by
  simp only [read,isBlank_of_letter letter,isDigit_of_letter letter,letter,if_true,
    Bool.false_eq_true,if_false]

theorem read_quote (rest : List Char) : read '"' rest = readString rest := rfl

theorem read_slash (rest : List Char) : read '/' rest = readSlash rest := rfl

theorem read_operator {c : Char} {o : Operator} (rest : List Char)
    (found : Operator.ofChar? c = some o) (notSlash : c ≠ '/') : read c rest = readOperator c rest := by
  obtain ⟨notBlank,notDigit,notLetter,notQuote,_⟩ := operator_apart found
  simp [read,notBlank,notDigit,notLetter,notQuote,notSlash]

theorem read_stray {c : Char} (rest : List Char) (stray : IsStray c) : read c rest = (.stray c,rest) := by
  simp [read,readOperator,stray.notBlank,stray.notDigit,stray.notLetter,stray.notQuote,
    stray.notOperator,stray.notSlash]

theorem closeComment_first (before : List Char) {body : List Char} (after : List Char)
    (first : ¬ HoldsClosing (body ++ ['*'])) :
    closeComment? before (body ++ '*' :: '/' :: after) = some (before.reverse ++ body,after) := by
  induction body generalizing before with
  | nil => simp [closeComment?]
  | cons c body ih =>
    have apart := closing_apart after first
    rw [List.cons_append,holdsClosing_cons,not_or] at first
    rw [List.cons_append,closeComment?.eq_2 _ _ _ apart,ih _ first.2,List.reverse_cons,List.append_assoc]
    rfl

theorem closeComment_sound {before text inside after : List Char}
    (closed : closeComment? before text = some (inside,after)) :
    ∃ body, inside = before.reverse ++ body ∧ ¬ HoldsClosing (body ++ ['*']) := by
  induction before,text using closeComment?.induct with
  | case1 before rest =>
    simp only [closeComment?,Option.some.injEq,Prod.mk.injEq] at closed
    exact ⟨[],by simp [closed.1],by simp [holdsClosing_cons,holdsClosing_nil]⟩
  | case2 before c rest other ih =>
    rw [closeComment?.eq_2 _ _ _ other] at closed
    obtain ⟨body,same,first⟩ := ih closed
    refine ⟨c :: body,by simp [same],?_⟩
    rw [List.cons_append,holdsClosing_cons,not_or]
    refine ⟨?_,first⟩
    intro early
    obtain ⟨star,slash⟩ := early
    have whole := closeComment_text closed
    rw [same,List.reverse_cons,List.append_assoc,List.append_assoc,List.append_assoc] at whole
    have tail := List.append_cancel_left (List.append_cancel_left whole)
    cases body with
    | nil => simp at slash
    | cons d body =>
      refine other (body ++ '*' :: '/' :: after) star ?_
      rw [← tail]
      simpa using slash
  | case3 before => cases closed

theorem closeComment_none {before text : List Char} :
    closeComment? before text = none ↔ ¬ HoldsClosing text := by
  induction before,text using closeComment?.induct with
  | case1 before rest => simp [closeComment?,holdsClosing_cons]
  | case2 before c rest other ih =>
    have apart : ¬ (c = '*' ∧ rest.head? = some '/') := by
      intro closes
      obtain ⟨star,slash⟩ := closes
      obtain ⟨tail,rfl⟩ := List.head?_eq_some_iff.mp slash
      exact other tail star rfl
    rw [closeComment?.eq_2 _ _ _ other,holdsClosing_cons,ih]
    simp only [apart,false_or]
  | case3 before => simp [closeComment?,holdsClosing_nil]

theorem readFraction_point {fraction after : List Char} (nonempty : fraction ≠ [])
    (digits : ∀ c ∈ fraction, c.isDigit = true) (stops : Stops Char.isDigit after) :
    readFraction ('.' :: (fraction ++ after)) = (fraction,after) := by
  simp only [readFraction,takeWhile_stops digits stops,dropWhile_stops digits stops]

theorem readFraction_none {text : List Char} (pointless : ¬ PointFollows text) :
    readFraction text = ([],text) := by
  unfold readFraction
  split
  · rename_i rest
    cases rest with
    | nil => rfl
    | cons d rest =>
      have notDigit : ¬ d.isDigit = true := fun digit => pointless ⟨d,rest,rfl,digit⟩
      simp [notDigit]
  · rfl

theorem readFraction_stops {text : List Char} (stops : Stops Char.isDigit text) :
    (∀ c ∈ (readFraction text).1, c.isDigit = true) ∧ Stops Char.isDigit (readFraction text).2 ∧
      ((readFraction text).1 = [] → ¬ PointFollows (readFraction text).2) := by
  by_cases point : PointFollows text
  · obtain ⟨d,rest,rfl,digit⟩ := point
    have split := List.takeWhile_append_dropWhile (p := Char.isDigit) (l := d :: rest)
    have nonempty : (d :: rest).takeWhile Char.isDigit ≠ [] := by simp [digit]
    have read := readFraction_point nonempty (inside_takeWhile _ _) (stops_dropWhile Char.isDigit (d :: rest))
    rw [split] at read
    rw [read]
    exact ⟨inside_takeWhile _ _,stops_dropWhile _ _,fun empty => absurd empty nonempty⟩
  · rw [readFraction_none point]
    exact ⟨by simp,stops,fun _ => point⟩

theorem readNumber_stands {c : Char} (rest : List Char) (digit : c.isDigit = true) :
    (readNumber c rest).1.StandsBefore (readNumber c rest).2 := by
  obtain ⟨digits,stops,point⟩ := readFraction_stops (stops_dropWhile Char.isDigit rest)
  refine ⟨⟨by simp,?_,digits⟩,stops,point⟩
  intro d member
  rcases List.mem_cons.mp member with rfl | inside
  · exact digit
  · exact inside_takeWhile _ _ d inside

theorem readWord_stands {c : Char} (rest : List Char) (letter : isWordStart c = true) :
    (readWord c rest).1.StandsBefore (readWord c rest).2 :=
  ⟨⟨c,_,rfl,letter,inside_takeWhile _ _⟩,stops_dropWhile _ _⟩

theorem readString_stands (rest : List Char) :
    (readString rest).1.StandsBefore (readString rest).2 := by
  unfold readString
  split
  · exact inside_takeWhile _ rest
  · rename_i ended
    have whole := List.takeWhile_append_dropWhile (p := (· != '"')) (l := rest)
    rw [ended,List.append_nil] at whole
    exact ⟨whole ▸ inside_takeWhile _ rest,rfl⟩

theorem readSlash_stands (rest : List Char) : (readSlash rest).1.StandsBefore (readSlash rest).2 := by
  unfold readSlash
  split
  · exact ⟨inside_takeWhile _ _,stops_dropWhile _ _⟩
  · rename_i body
    cases closed : closeComment? [] body with
    | none => exact ⟨closeComment_none.mp closed,rfl⟩
    | some pair =>
      obtain ⟨body,same,first⟩ := closeComment_sound closed
      rw [List.reverse_nil,List.nil_append] at same
      subst same
      exact first
  · rename_i line block
    refine ⟨by simp [Operator.withEqual?],fun _ => ?_⟩
    cases rest with
    | nil => exact stops_nil _
    | cons c rest =>
      simp only [stops_cons,Bool.or_eq_false_iff,beq_eq_false_iff_ne,ne_eq]
      exact ⟨fun slash => line rest (slash ▸ rfl),fun star => block rest (star ▸ rfl)⟩

theorem readOperator_stands {c : Char} {o : Operator} (rest : List Char)
    (found : Operator.ofChar? c = some o) (notSlash : c ≠ '/') :
    (readOperator c rest).1.StandsBefore (readOperator c rest).2 := by
  have written := Operator.text_of_ofChar found
  have plain : o ≠ .slash := by
    intro same
    subst same
    exact notSlash (List.cons.inj written).1.symm
  simp only [readOperator,found]
  split
  · rename_i longer after joined
    obtain ⟨ended,notLonger⟩ := joined_apart joined
    exact ⟨by simp [ended],fun same => absurd same notLonger⟩
  · rename_i apart
    refine ⟨fun joins => ?_,fun same => absurd same plain⟩
    obtain ⟨longer,joined⟩ := Option.isSome_iff_exists.mp joins
    intro d head
    obtain ⟨after,rfl⟩ := List.head?_eq_some_iff.mp (Option.mem_def.mp head)
    rw [beq_eq_false_iff_ne]
    intro equal
    exact apart longer after joined (equal ▸ rfl)

theorem read_stands (c : Char) (rest : List Char) : (read c rest).1.StandsBefore (read c rest).2 := by
  by_cases blank : isBlank c = true
  · rw [read_blank rest blank]
    exact blank
  by_cases digit : c.isDigit = true
  · rw [read_digit rest digit]
    exact readNumber_stands rest digit
  by_cases letter : isWordStart c = true
  · rw [read_letter rest letter]
    exact readWord_stands rest letter
  by_cases quote : c = '"'
  · rw [quote,read_quote]
    exact readString_stands rest
  by_cases slash : c = '/'
  · rw [slash,read_slash]
    exact readSlash_stands rest
  cases found : Operator.ofChar? c with
  | some o =>
    rw [read_operator rest found slash]
    exact readOperator_stands rest found slash
  | none =>
    have stray : IsStray c := ⟨by simpa using blank,by simpa using digit,by simpa using letter,quote,found⟩
    rw [read_stray rest stray]
    exact stray

theorem readNumber_exact {c : Char} {digits fraction after rest : List Char}
    (inside : ∀ d ∈ digits, d.isDigit = true) (places : ∀ d ∈ fraction, d.isDigit = true)
    (stops : Stops Char.isDigit after) (point : fraction = [] → ¬ PointFollows after)
    (written : numberText (c :: digits) fraction ++ after = c :: rest) :
    readNumber c rest = (.number (c :: digits) fraction,after) := by
  cases fraction with
  | nil =>
    have same : digits ++ after = rest := (List.cons.inj written).2
    simp only [← same,readNumber,takeWhile_stops inside stops,dropWhile_stops inside stops,
      readFraction_none (point rfl)]
  | cons f fraction =>
    have same : digits ++ '.' :: (f :: fraction ++ after) = rest := by
      simpa [numberText] using written
    have dot : Stops Char.isDigit ('.' :: (f :: fraction ++ after)) := stops_cons.mpr rfl
    simp only [← same,readNumber,takeWhile_stops inside dot,dropWhile_stops inside dot,
      readFraction_point (List.cons_ne_nil f fraction) places stops]

theorem readString_exact {body : List Char} (after : List Char)
    (inside : ∀ c ∈ body, (c != '"') = true) :
    readString (body ++ '"' :: after) = (.string body,after) := by
  have quote : Stops (· != '"') ('"' :: after) := stops_cons.mpr rfl
  simp only [readString,takeWhile_stops inside quote,dropWhile_stops inside quote]

theorem readString_open {body : List Char} (inside : ∀ c ∈ body, (c != '"') = true) :
    readString body = (.openString body,[]) := by
  have ended := dropWhile_stops inside (stops_nil _)
  rw [List.append_nil] at ended
  simp only [readString,ended]

theorem readSlash_plain {rest : List Char} (stops : Stops (fun c => c == '/' || c == '*') rest) :
    readSlash rest = (.operator .slash,rest) := by
  unfold readSlash
  split
  · exact absurd (stops_cons.mp stops) (by decide)
  · exact absurd (stops_cons.mp stops) (by decide)
  · rfl

theorem readOperator_plain {c : Char} {o : Operator} {rest : List Char}
    (found : Operator.ofChar? c = some o)
    (stops : o.withEqual?.isSome = true → Stops (· == '=') rest) :
    readOperator c rest = (.operator o,rest) := by
  simp only [readOperator,found]
  split
  · rename_i longer after joined
    exact absurd (stops_cons.mp (stops (by rw [joined]; rfl))) (by decide)
  · rfl

theorem readOperator_joined {c : Char} {o longer : Operator} (after : List Char)
    (found : Operator.ofChar? c = some o) (joined : o.withEqual? = some longer) :
    readOperator c ('=' :: after) = (.operator longer,after) := by
  simp only [readOperator,found,joined]

theorem operator_exact {o : Operator} {c : Char} {after rest : List Char}
    (stands : (operator o).StandsBefore after) (written : o.text ++ after = c :: rest) :
    read c rest = (.operator o,after) := by
  rcases operator_spelled o with ⟨d,spelled,found⟩ | ⟨d,shorter,spelled,notSlash,found,joined⟩
  · rw [spelled] at written
    obtain ⟨rfl,rfl⟩ := List.cons.inj written
    by_cases slash : d = '/'
    · have same : o = .slash := (operator_apart found).2.2.2.2 slash
      subst slash same
      exact readSlash_plain (stands.2 rfl)
    · rw [read_operator _ found slash]
      exact readOperator_plain found stands.1
  · rw [spelled] at written
    obtain ⟨rfl,rfl⟩ := List.cons.inj written
    rw [read_operator _ found notSlash]
    exact readOperator_joined after found joined

theorem read_exact {piece : Segment} {c : Char} {after rest : List Char}
    (stands : piece.StandsBefore after) (written : piece.text ++ after = c :: rest) :
    read c rest = (piece,after) := by
  cases piece with
  | blank b =>
    obtain ⟨rfl,rfl⟩ := List.cons.inj written
    exact read_blank after stands
  | lineComment body =>
    obtain ⟨rfl,rfl⟩ := List.cons.inj written
    simp only [List.append_eq,read_slash,readSlash,List.cons_append,takeWhile_stops stands.1 stands.2,
      dropWhile_stops stands.1 stands.2]
  | blockComment body =>
    obtain ⟨rfl,rfl⟩ := List.cons.inj written
    have closed := closeComment_first [] after stands
    simp only [read_slash,readSlash,List.append_eq,List.cons_append,List.append_assoc,List.nil_append,closed,
      List.reverse_nil]
  | openComment body =>
    obtain ⟨never,rfl⟩ := stands
    obtain ⟨rfl,rfl⟩ := List.cons.inj written
    simp only [read_slash,readSlash,List.append_eq,List.append_nil,closeComment_none.mpr never]
  | string body =>
    obtain ⟨rfl,rfl⟩ := List.cons.inj written
    simp only [read_quote,List.append_eq,List.append_assoc,List.cons_append,List.nil_append,
      readString_exact after stands]
  | openString body =>
    obtain ⟨inside,rfl⟩ := stands
    obtain ⟨rfl,rfl⟩ := List.cons.inj written
    rw [List.append_eq,List.append_nil]
    exact readString_open inside
  | number whole fraction =>
    obtain ⟨⟨nonempty,digits,places⟩,stops,point⟩ := stands
    obtain ⟨d,whole,rfl⟩ := List.exists_cons_of_ne_nil nonempty
    have same : d = c := by cases fraction <;> exact (List.cons.inj written).1
    subst same
    rw [read_digit rest (digits d (by simp))]
    exact readNumber_exact (fun e member => digits e (List.mem_cons_of_mem _ member)) places stops point
      written
  | word letters =>
    obtain ⟨⟨d,letters,rfl,start,inside⟩,stops⟩ := stands
    obtain ⟨rfl,rfl⟩ := List.cons.inj written
    rw [read_letter _ start,List.append_eq]
    simp only [readWord,takeWhile_stops inside stops,dropWhile_stops inside stops]
  | operator o => exact operator_exact stands written
  | stray d =>
    obtain ⟨rfl,rfl⟩ := List.cons.inj written
    exact read_stray after stands

end ScriptLexer.Segment
