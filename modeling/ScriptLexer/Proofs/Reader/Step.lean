import ScriptLexer.Proofs.Reader.Invariant

namespace ScriptLexer

variable {c : Char} {text body : List Char}

-- The null character at the end of a text is in none of the classes that a loop goes on
-- with, so a look ahead finds a member only where one stands.
theorem looks {p : Char → Bool} (null : p '\x00' = false) (text : List Char) :
    (p (text.head?.getD '\x00') = true ∧ ∃ c after, text = c :: after ∧ p c = true) ∨
      (p (text.head?.getD '\x00') = false ∧ Stops p text) := by
  cases text with
  | nil => exact .inr ⟨null,stops_nil p⟩
  | cons c after =>
    cases member : p c with
    | true => exact .inl ⟨member,c,after,rfl,member⟩
    | false => exact .inr ⟨member,stops_cons.mpr member⟩

theorem looks_point (text : List Char) :
    (text.head?.getD '\x00' = '.' ∧ (text[1]?.getD '\x00').isDigit = true) ↔ PointFollows text := by
  constructor
  · intro seen
    obtain ⟨point,digit⟩ := seen
    cases text with
    | nil => cases point
    | cons c after =>
      cases after with
      | nil => cases digit
      | cons d after =>
        subst point
        exact ⟨d,after,rfl,digit⟩
  · intro follows
    obtain ⟨d,after,rfl,digit⟩ := follows
    exact ⟨rfl,digit⟩

theorem looks_closing (text : List Char) :
    (text.head?.getD '\x00' = '*' ∧ text[1]?.getD '\x00' = '/') ↔ ∃ after, text = '*' :: '/' :: after := by
  constructor
  · intro seen
    obtain ⟨star,slash⟩ := seen
    cases text with
    | nil => cases star
    | cons c after =>
      cases after with
      | nil => cases slash
      | cons d after =>
        subst star slash
        exact ⟨after,rfl⟩
  · intro closing
    obtain ⟨after,rfl⟩ := closing
    exact ⟨rfl,rfl⟩

theorem inside_concat {p : Char → Bool} (inside : ∀ d ∈ body, p d = true) (next : p c = true) :
    ∀ d ∈ body ++ [c], p d = true := by
  intro d member
  rcases List.mem_append.mp member with old | new
  · exact inside d old
  · rw [List.mem_singleton.mp new]
    exact next

theorem count_feed (line : Nat) : (if c = '\n' then line + 1 else line) = line + lineFeeds [c] := by
  rw [lineFeeds,List.count_singleton]
  by_cases feed : c = '\n' <;> simp [feed]

theorem starts_or_stops (c : Char) (text : List Char) :
    (∃ after, text = c :: after) ∨ Stops (· == c) text := by
  cases text with
  | nil => exact .inr (stops_nil _)
  | cons d text =>
    by_cases same : d = c
    · exact .inl ⟨text,by rw [same]⟩
    · exact .inr (stops_cons.mpr (beq_eq_false_iff_ne.mpr same))

theorem notClosing_next (before : ¬ HoldsClosing (body ++ [c]))
    (apart : ¬ ∃ after, c :: text = '*' :: '/' :: after) : ¬ HoldsClosing (body ++ [c] ++ text.take 1) := by
  induction body with
  | nil =>
    intro closing
    cases text with
    | nil => exact before closing
    | cons d text =>
      rw [List.nil_append,List.singleton_append,List.take_succ_cons,List.take_zero,holdsClosing_cons,
        holdsClosing_cons] at closing
      simp only [List.head?_cons,List.head?_nil,Option.some.injEq,reduceCtorEq,and_false,
        holdsClosing_nil,or_false] at closing
      exact apart ⟨text,by rw [closing.1,closing.2]⟩
  | cons b body ih =>
    rw [List.cons_append,holdsClosing_cons,not_or] at before
    rw [List.cons_append,List.cons_append,holdsClosing_cons,not_or]
    refine ⟨?_,ih before.2⟩
    intro closing
    refine before.1 ⟨closing.1,?_⟩
    cases body with
    | nil => simpa using closing.2
    | cons e body => simpa using closing.2

namespace Reader

variable {source inside rest : List Char} {pieces : List Segment} {s t : Reader}

theorem stays_outer (loop : s.stage.height = 2) (current : t.current = s.current)
    (outer : t.stage = .outer) : Moves source s t := by
  refine .stays current ?_
  rw [outer,loop]
  decide

theorem Within.addToken_valid (piece : Segment) {kind : TokenKind} {literal : Option Literal}
    (here : Within source s pieces inside rest) (text : piece.text = inside)
    (stands : piece.StandsBefore rest)
    (shape : ∀ place : Place, piece.event? place = some (.token
      ⟨kind,piece.text,literal,⟨place.line,⟨place.offset,(place.after piece.text).offset⟩⟩⟩)) :
    Valid source (s.tellToken kind inside literal) := by
  apply here.close_told piece text stands
  rw [shape,text,here.reached]
  rfl

theorem Within.report_valid (piece : Segment) {cause : LexError.Cause}
    (here : Within source s pieces inside rest) (text : piece.text = inside)
    (stands : piece.StandsBefore rest)
    (shape : ∀ place : Place, piece.event? place = some (.error
      ⟨cause,⟨(place.after piece.text).line,⟨place.offset,(place.after piece.text).offset⟩⟩⟩)) :
    Valid source (s.report cause) := by
  apply here.close_told piece text stands
  rw [shape,text,here.reached]
  rfl

theorem stays_lowest (loop : s.stage.height = 2) (current : t.current = s.current)
    (lowest : t.stage.height = 0) : Moves source s t := by
  refine .stays current ?_
  rw [lowest,loop]
  decide

theorem lineComment_proceeds (here : Within source s pieces inside rest) (stage : s.stage = .lineComment)
    (fits : Stage.lineComment.Fits inside rest) : Proceeds source s := by
  obtain ⟨body,rfl,plain⟩ := fits
  have loop : s.stage.height = 2 := by rw [stage]; rfl
  cases rest with
  | nil =>
    refine ⟨{s with stage := .outer},?_,?_,stays_outer loop rfl rfl⟩
    · simp [step,stage,here.located.peek_eq,here.located.atEnd_eq]
    · exact here.close_silent (.lineComment body) rfl ⟨plain,stops_nil _⟩ rfl
  | cons c rest =>
    by_cases feed : c = '\n'
    · refine ⟨{s with stage := .outer},?_,?_,stays_outer loop rfl rfl⟩
      · simp [step,stage,here.located.peek_eq,feed]
      · exact here.close_silent (.lineComment body) rfl ⟨plain,stops_cons.mpr (by simp [feed])⟩ rfl
    · refine ⟨s.moved c,?_,?_,here.reads rfl⟩
      · simp [step,stage,here.located.peek_eq,here.located.atEnd_eq,here.located.advance_eq,feed]
      · apply Valid.within _ (here.moved feed)
        show s.stage.Fits _ _
        rw [stage]
        exact ⟨body ++ [c],rfl,inside_concat plain (bne_iff_ne.mpr feed)⟩

theorem blockComment_proceeds (here : Within source s pieces inside rest) (stage : s.stage = .blockComment)
    (fits : Stage.blockComment.Fits inside rest) : Proceeds source s := by
  obtain ⟨body,rfl,apart⟩ := fits
  have loop : s.stage.height = 2 := by rw [stage]; rfl
  cases rest with
  | nil =>
    rw [List.take_nil,List.append_nil] at apart
    refine ⟨s.tell (.openComment s.line),?_,?_,stays_outer loop rfl rfl⟩
    · simp [step,stage,here.located.atEnd_eq]
    · apply here.close_told (.openComment body) rfl ⟨apart,rfl⟩
      have reached := here.reached
      simp only [Segment.event?,Segment.text,reached]
  | cons c rest =>
    by_cases closing : ∃ after, c :: rest = '*' :: '/' :: after
    · have seen := (looks_closing _).mpr closing
      obtain ⟨after,same⟩ := closing
      obtain ⟨rfl,rfl⟩ := List.cons.inj same
      refine ⟨{s.moved '*' with stage := .closingSlash},?_,?_,here.reads rfl⟩
      · simp [step,stage,here.located.atEnd_eq,here.located.peek_eq,here.located.peekNext_eq,
          here.located.advance_eq]
      · apply Valid.within _ ((here.moved (by decide)).staged .closingSlash)
        exact ⟨body,after,rfl,rfl,apart⟩
    · have unseen := mt (looks_closing _).mp closing
      refine ⟨{s.moved c with line := s.line + lineFeeds [c]},?_,?_,here.reads rfl⟩
      · simp only [step,stage,here.located.atEnd_eq,here.located.peek_eq,here.located.peekNext_eq,
          here.located.advance_eq,ok_bind,pure_ok,unseen,count_feed,if_false,Reader.moved]
        rfl
      · apply Valid.within _ here.read
        show s.stage.Fits _ _
        rw [stage]
        exact ⟨body ++ [c],rfl,notClosing_next apart closing⟩

theorem closingSlash_proceeds (here : Within source s pieces inside rest) (stage : s.stage = .closingSlash)
    (fits : Stage.closingSlash.Fits inside rest) : Proceeds source s := by
  obtain ⟨body,after,rfl,rfl,apart⟩ := fits
  refine ⟨{s.moved '/' with stage := .outer},?_,?_,here.reads rfl⟩
  · simp [step,stage,here.located.advance_eq]
  · apply (here.moved (by decide)).close_silent (.blockComment body) _ apart rfl
    simp [Segment.text]

theorem string_proceeds (here : Within source s pieces inside rest) (stage : s.stage = .string)
    (fits : Stage.string.Fits inside rest) : Proceeds source s := by
  have loop : s.stage.height = 2 := by rw [stage]; rfl
  cases rest with
  | nil =>
    obtain ⟨body,rfl,plain⟩ := fits
    refine ⟨s.report .unterminatedString,?_,?_,stays_outer loop rfl rfl⟩
    · simp [step,stage,here.located.peek_eq,here.located.atEnd_eq]
    · exact here.report_valid (.openString body) rfl ⟨plain,rfl⟩ fun _ => rfl
  | cons c rest =>
    by_cases quote : c = '"'
    · obtain ⟨body,rfl,plain⟩ := fits
      subst quote
      have read := here.moved (by decide)
      refine ⟨(s.moved '"').tellToken .string ('"' :: body ++ ['"']) (some (.text body)),?_,?_,here.reads rfl⟩
      · simp only [step,stage,here.located.peek_eq,here.located.atEnd_eq,here.located.advance_eq,
          ok_bind,read.located.body_eq,read.located.addToken_eq]
        rfl
      · exact read.addToken_valid (.string body) rfl plain fun _ => rfl
    · refine ⟨{s with stage := .stringCharacter,line := s.line + lineFeeds [c]},?_,.counted fits quote here,
        stays_lowest loop rfl rfl⟩
      simp [step,stage,here.located.peek_eq,here.located.atEnd_eq,count_feed,quote]

theorem stringCharacter_proceeds {c : Char} (here : Within source s pieces inside (c :: rest))
    (fits : Stage.string.Fits inside (c :: rest)) (body : c ≠ '"') :
    Proceeds source {s with stage := .stringCharacter,line := s.line + lineFeeds [c]} := by
  obtain ⟨text,rfl,plain⟩ := fits
  have located : Located source {s with stage := .stringCharacter,line := s.line + lineFeeds [c]}
      (pieces.flatMap Segment.text) ('"' :: text) (c :: rest) :=
    ⟨here.located.whole,here.located.start,here.located.current⟩
  refine ⟨{s.moved c with stage := .string,line := s.line + lineFeeds [c]},?_,?_,
    .reads located.unread_eq rfl⟩
  · simp only [step,located.advance_eq]
    rfl
  · apply Valid.within _ (here.read.staged .string)
    exact ⟨text ++ [c],rfl,inside_concat plain (bne_iff_ne.mpr body)⟩

theorem endNumber_proceeds (whole fraction : List Char) (loop : s.stage.height = 2)
    (here : Within source s pieces (Segment.numberText whole fraction) rest)
    (stands : (Segment.number whole fraction).StandsBefore rest) (run : step source s = endNumber source s) :
    Proceeds source s := by
  refine ⟨s.tellToken .number (Segment.numberText whole fraction)
    (some (.number (Grammar.numeralValue (Segment.numberText whole fraction)))),?_,?_,
      stays_outer loop rfl rfl⟩
  · simp only [run,endNumber,here.located.lexeme_eq,ok_bind,here.located.addToken_eq]
  · rw [Grammar.numeralValue_text stands.1.2.1]
    exact here.addToken_valid (.number whole fraction) rfl stands fun _ => rfl

theorem notFeed_of_digit {c : Char} (digit : c.isDigit = true) : c ≠ '\n' := by
  intro feed
  rw [feed] at digit
  cases digit

theorem wholeDigits_proceeds (here : Within source s pieces inside rest) (stage : s.stage = .wholeDigits)
    (fits : Stage.wholeDigits.Fits inside rest) : Proceeds source s := by
  obtain ⟨nonempty,digits⟩ := fits
  have loop : s.stage.height = 2 := by rw [stage]; rfl
  rcases looks (p := Char.isDigit) rfl rest with ⟨_,c,after,rfl,digit⟩ | ⟨unseen,stops⟩
  · refine ⟨s.moved c,?_,?_,here.reads rfl⟩
    · simp [step,stage,here.located.peek_eq,here.located.advance_eq,digit]
    · apply Valid.within _ (here.moved (notFeed_of_digit digit))
      show s.stage.Fits _ _
      rw [stage]
      exact ⟨by simp,inside_concat digits digit⟩
  · by_cases point : PointFollows rest
    · obtain ⟨d,after,rfl,digit⟩ := point
      refine ⟨{s.moved '.' with stage := .fractionDigits},?_,?_,here.reads rfl⟩
      · simp [step,stage,here.located.peek_eq,here.located.peekNext_eq,here.located.advance_eq,digit]
      · apply Valid.within _ ((here.moved (by decide)).staged .fractionDigits)
        refine ⟨inside,[],rfl,nonempty,digits,by simp,?_⟩
        intro _ stops
        rw [stops_cons,digit] at stops
        cases stops
    · have plain := mt (looks_point rest).mp point
      apply endNumber_proceeds inside [] loop here ⟨⟨nonempty,digits,by simp⟩,stops,fun _ => point⟩
      simp only [step,stage,here.located.peek_eq,here.located.peekNext_eq,ok_bind,unseen,plain,if_false,
        Bool.false_eq_true]

theorem fractionDigits_proceeds (here : Within source s pieces inside rest)
    (stage : s.stage = .fractionDigits) (fits : Stage.fractionDigits.Fits inside rest) :
    Proceeds source s := by
  obtain ⟨whole,fraction,rfl,nonempty,digits,places,more⟩ := fits
  have loop : s.stage.height = 2 := by rw [stage]; rfl
  rcases looks (p := Char.isDigit) rfl rest with ⟨_,c,after,rfl,digit⟩ | ⟨unseen,stops⟩
  · refine ⟨s.moved c,?_,?_,here.reads rfl⟩
    · simp [step,stage,here.located.peek_eq,here.located.advance_eq,digit]
    · apply Valid.within _ (here.moved (notFeed_of_digit digit))
      show s.stage.Fits _ _
      rw [stage]
      refine ⟨whole,fraction ++ [c],by simp,nonempty,digits,inside_concat places digit,?_⟩
      intro empty
      simp at empty
  · cases fraction with
    | nil => exact absurd stops (more rfl)
    | cons d fraction =>
      apply endNumber_proceeds whole (d :: fraction) loop here ⟨⟨nonempty,digits,places⟩,stops,by simp⟩
      simp only [step,stage,here.located.peek_eq,ok_bind,unseen,if_false,Bool.false_eq_true]

theorem word_proceeds (here : Within source s pieces inside rest) (stage : s.stage = .word)
    (fits : IsWord inside) : Proceeds source s := by
  have loop : s.stage.height = 2 := by rw [stage]; rfl
  rcases looks (p := isWordPart) rfl rest with ⟨_,c,after,rfl,part⟩ | ⟨unseen,stops⟩
  · have notFeed : c ≠ '\n' := by
      intro feed
      rw [feed] at part
      cases part
    refine ⟨s.moved c,?_,?_,here.reads rfl⟩
    · simp [step,stage,here.located.peek_eq,here.located.advance_eq,part]
    · apply Valid.within _ (here.moved notFeed)
      show s.stage.Fits _ _
      rw [stage]
      obtain ⟨d,letters,rfl,letter,parts⟩ := fits
      exact ⟨d,letters ++ [c],rfl,letter,inside_concat parts part⟩
  · refine ⟨s.tellToken (.ofWord inside) inside none,?_,?_,stays_outer loop rfl rfl⟩
    · simp only [step,stage,here.located.peek_eq,ok_bind,unseen,if_false,Bool.false_eq_true,
        here.located.lexeme_eq,here.located.addToken_eq]
    · exact here.addToken_valid (.word inside) rfl ⟨fits,stops⟩ fun _ => rfl

theorem afterSlash_proceeds (here : Within source s pieces inside rest) (stage : s.stage = .afterSlash)
    (fits : inside = ['/']) : Proceeds source s := by
  subst fits
  have loop : s.stage.height = 2 := by rw [stage]; rfl
  rcases starts_or_stops '/' rest with ⟨after,rfl⟩ | notLine
  · refine ⟨{s.moved '/' with stage := .lineComment},?_,?_,here.reads rfl⟩
    · simp [step,stage,here.located.accept_yes]
    · apply Valid.within _ ((here.moved (by decide)).staged .lineComment)
      exact ⟨[],rfl,by simp⟩
  · rcases starts_or_stops '*' rest with ⟨after,rfl⟩ | notBlock
    · refine ⟨{s.moved '*' with stage := .blockComment},?_,?_,here.reads rfl⟩
      · simp [step,stage,here.located.accept_no notLine,here.located.accept_yes]
      · apply Valid.within _ ((here.moved (by decide)).staged .blockComment)
        refine ⟨[],rfl,?_⟩
        cases after <;> simp [holdsClosing_cons,holdsClosing_nil]
    · refine ⟨s.tellToken (.operator .slash) ['/'] none,?_,?_,stays_outer loop rfl rfl⟩
      · simp [step,stage,here.located.accept_no notLine,here.located.accept_no notBlock,
          here.located.addToken_eq]
      · apply here.addToken_valid (.operator .slash) rfl ⟨by simp [Operator.withEqual?],fun _ => ?_⟩ fun _ => rfl
        intro c head
        exact Bool.or_eq_false_iff.mpr ⟨notLine c head,notBlock c head⟩

theorem afterOperator_proceeds {o : Operator} (here : Within source s pieces inside rest)
    (stage : s.stage = .afterOperator o) (fits : (Stage.afterOperator o).Fits inside rest) :
    Proceeds source s := by
  obtain ⟨rfl,notSlash,joins⟩ := fits
  obtain ⟨longer,joined⟩ := Option.isSome_iff_exists.mp joins
  have loop : s.stage.height = 2 := by rw [stage]; rfl
  rcases starts_or_stops '=' rest with ⟨after,rfl⟩ | apart
  · have read := here.moved (by decide)
    obtain ⟨last,notLonger⟩ := joined_apart joined
    refine ⟨(s.moved '=').tellToken (.operator longer) (o.text ++ ['=']) none,?_,?_,here.reads rfl⟩
    · simp [step,stage,here.located.accept_yes,read.located.addToken_eq,joined]
    · apply read.addToken_valid (.operator longer) (Operator.text_of_withEqual joined) _ fun _ => rfl
      exact ⟨by simp [last],fun same => absurd same notLonger⟩
  · refine ⟨s.tellToken (.operator o) o.text none,?_,?_,stays_outer loop rfl rfl⟩
    · simp [step,stage,here.located.accept_no apart,here.located.addToken_eq]
    · exact here.addToken_valid (.operator o) rfl ⟨fun _ => apart,fun same => absurd same notSlash⟩ fun _ => rfl

theorem begin_operator {c : Char} {o : Operator} (here : Within source s pieces [c] rest)
    (found : Operator.ofChar? c = some o) :
    ∃ t, begin source s c = .ok t ∧ Valid source t ∧ t.current = s.current := by
  have text := Operator.text_of_ofChar found
  by_cases slash : o = .slash
  · subst slash
    refine ⟨{s with stage := .afterSlash},by simp [begin,found],?_,rfl⟩
    exact .within text.symm (here.staged .afterSlash)
  · by_cases joins : o.withEqual?.isSome = true
    · refine ⟨{s with stage := .afterOperator o},by simp [begin,found,slash,joins],?_,rfl⟩
      exact .within ⟨text.symm,slash,joins⟩ (here.staged (.afterOperator o))
    · refine ⟨s.tellToken (.operator o) [c] none,?_,?_,rfl⟩
      · simp [begin,found,slash,joins,here.located.addToken_eq]
      · exact here.addToken_valid (.operator o) text
          ⟨fun joined => absurd joined joins,fun same => absurd same slash⟩ fun _ => rfl

theorem begin_other {c : Char} (here : Within source s pieces [c] rest)
    (notOperator : Operator.ofChar? c = none) (notFeed : c ≠ '\n') :
    ∃ t, begin source s c = .ok t ∧ Valid source t ∧ t.current = s.current := by
  by_cases blank : c = ' ' ∨ c = '\r' ∨ c = '\t'
  · refine ⟨{s with stage := .outer},by simp [begin,notOperator,blank],?_,rfl⟩
    apply here.close_silent (.blank c) rfl _ rfl
    rcases blank with rfl | rfl | rfl <;> rfl
  by_cases quote : c = '"'
  · subst quote
    refine ⟨{s with stage := .string},rfl,?_,rfl⟩
    exact .within ⟨[],rfl,by simp⟩ (here.staged .string)
  by_cases digit : c.isDigit = true
  · refine ⟨{s with stage := .wholeDigits},by simp [begin,notOperator,blank,notFeed,quote,digit],?_,rfl⟩
    exact .within ⟨by simp,by simp [digit]⟩ (here.staged .wholeDigits)
  by_cases letter : isWordStart c = true
  · refine ⟨{s with stage := .word},by simp [begin,notOperator,blank,notFeed,quote,digit,letter],?_,rfl⟩
    exact .within ⟨c,[],rfl,letter,by simp⟩ (here.staged .word)
  · refine ⟨s.report (.unexpectedCharacter c),by simp [begin,notOperator,blank,notFeed,quote,digit,letter],?_,rfl⟩
    apply here.report_valid (.stray c) rfl _ fun _ => rfl
    refine ⟨?_,by simpa using digit,by simpa using letter,quote,notOperator⟩
    rw [← Bool.not_eq_true,isBlank_iff]
    simpa [notFeed] using blank

theorem dispatch_proceeds (here : Within source s pieces inside rest) (stage : s.stage = .dispatch)
    (fits : Stage.dispatch.Fits inside rest) : Proceeds source s := by
  obtain ⟨rfl,more⟩ := fits
  obtain ⟨c,after,rfl⟩ := List.exists_cons_of_ne_nil more
  have run : step source s = begin source (s.moved c) c := by
    simp [step,stage,here.located.advance_eq]
  by_cases feed : c = '\n'
  · subst feed
    refine ⟨{s.moved '\n' with stage := .outer,line := s.line + 1},run,?_,here.reads rfl⟩
    exact here.read.close_silent (.blank '\n') rfl rfl rfl
  · have begun : ∃ t, begin source (s.moved c) c = .ok t ∧ Valid source t ∧ t.current = (s.moved c).current := by
      cases found : Operator.ofChar? c with
      | some o => exact begin_operator (here.moved feed) found
      | none => exact begin_other (here.moved feed) found feed
    obtain ⟨t,ran,valid,current⟩ := begun
    exact ⟨t,run.trans ran,valid,here.reads current⟩

theorem Between.opened (here : Between source s pieces rest) (stage : Stage) :
    Within source {s with stage := stage,start := s.current,startLine := s.line} pieces [] rest := by
  obtain ⟨before,inside,front,located⟩ := here.located
  refine ⟨here.split,here.told,⟨?_,?_,?_⟩,here.line,rfl⟩
  · rw [List.append_nil,front,located.whole]
  · rw [front]
    exact located.current
  · rw [List.append_nil,front]
    exact located.current

theorem stays_from_outer (stage : s.stage = .outer) (current : t.current = s.current)
    (lowest : t.stage.height = 0) : Moves source s t := by
  refine .stays current ?_
  rw [lowest,stage]
  decide

theorem outer_ended (here : Between source s pieces []) (stage : s.stage = .outer) : Proceeds source s := by
  have opened := here.opened .outer
  have whole : source = pieces.flatMap Segment.text := by simpa using opened.located.whole
  have current : s.current = byteLength source := by rw [whole]; exact opened.located.start
  have line : s.line = 1 + lineFeeds source := by rw [whole]; exact here.line
  have final : (scan source).endToken = ⟨.endOfSource,[],none,⟨s.line,⟨s.current,s.current⟩⟩⟩ := by
    simp only [Scan.endToken,scan,start_after,current,line]
  have all : segments source = pieces := by
    rw [here.split,segments_nil,List.append_nil]
  refine ⟨{s with
    stage := .ended,start := s.current,startLine := s.line,
    told := s.told ++ [.token (scan source).endToken]},?_,?_,stays_from_outer stage rfl rfl⟩
  · simp only [step,stage,opened.located.atEnd_eq,opened.located.addToken_eq,final]
    rfl
  · apply Valid.ended rfl
    · show s.told ++ _ = events source ++ _
      rw [here.told,events_from,all]
    · exact ⟨by simp,current,by rw [List.append_nil]; exact current⟩
    · exact line

theorem outer_proceeds (here : Between source s pieces rest) (stage : s.stage = .outer) :
    Proceeds source s := by
  cases rest with
  | nil => exact outer_ended here stage
  | cons c rest =>
    have opened := here.opened .outer
    refine ⟨{s with stage := .dispatch,start := s.current,startLine := s.line},?_,?_,
      stays_from_outer stage rfl rfl⟩
    · simp only [step,stage,opened.located.atEnd_eq]
      rfl
    · exact .within ⟨rfl,List.cons_ne_nil c rest⟩ (here.opened .dispatch)

theorem proceeds (valid : Valid source s) (stage : s.stage ≠ .ended) : Proceeds source s := by
  cases valid with
  | between outer here => exact outer_proceeds here outer
  | counted fits body here => exact stringCharacter_proceeds here fits body
  | ended last told located line => exact absurd last stage
  | within fits here =>
    cases point : s.stage <;> rw [point] at fits
    case outer | stringCharacter | ended => exact fits.elim
    case dispatch => exact dispatch_proceeds here point fits
    case afterOperator o => exact afterOperator_proceeds here point fits
    case afterSlash => exact afterSlash_proceeds here point fits
    case lineComment => exact lineComment_proceeds here point fits
    case blockComment => exact blockComment_proceeds here point fits
    case closingSlash => exact closingSlash_proceeds here point fits
    case string => exact string_proceeds here point fits
    case wholeDigits => exact wholeDigits_proceeds here point fits
    case fractionDigits => exact fractionDigits_proceeds here point fits
    case word => exact word_proceeds here point fits

end Reader

end ScriptLexer
