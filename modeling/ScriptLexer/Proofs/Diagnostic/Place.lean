import ScriptLexer.Diagnostic.Report
import ScriptLexer.Proofs.Diagnostic.Searched
import ScriptLexer.Proofs.Diagnostic.Shown
import ScriptLexer.Proofs.Reader.Lines
import ScriptLexer.Proofs.Scan.Settled

namespace ScriptLexer

theorem IsStray.notLineEnd {c : Char} (stray : IsStray c) : isLineEnd c = false := by
  apply eq_false_of_ne_true
  intro ends
  have plain := stray.notBlank
  rcases isLineEnd_iff.mp ends with rfl | rfl <;> cases plain

theorem error_stands {source : List Char} {error : LexError} (reported : error ∈ (scan source).errors) :
    ∃ before c inside after, source = before ++ (c :: inside) ++ after ∧ isLineEnd c = false ∧
      error.position.span = ⟨byteLength before,byteLength (before ++ c :: inside)⟩ ∧
        ∀ character, error.cause = .unexpectedCharacter character →
          error.position.line = 1 + lineFeeds before := by
  obtain ⟨event,present,seen⟩ := List.mem_filterMap.mp reported
  obtain ⟨before,piece,after,stands,whole,told⟩ := event_piece (segments_splits source) [] present
  have placed : piece.event? (Place.start.after before) = some (.error error) := by
    refine error_seen ?_
    rw [told]
    exact seen
  have position := error_span placed
  rw [offset_after,start_after] at position
  cases piece with
  | stray c =>
    refine ⟨before,c,[],after,whole.symm,IsStray.notLineEnd stands,position,?_⟩
    intro _ _
    have line := error_line stands placed
    have cause : error.cause = .unexpectedCharacter c := by
      cases placed
      rfl
    rw [LexError.lineIn,cause,position,List.append_assoc] at line
    dsimp only at line
    rw [slice_front] at line
    exact line
  | openString body =>
    refine ⟨before,'"',body,after,whole.symm,rfl,position,?_⟩
    cases placed
    intro character cause
    cases cause
  | _ => cases placed

theorem error_bounds {source : List Char} {error : LexError} (reported : error ∈ (scan source).errors) :
    error.position.span.start < error.position.span.stop ∧ error.position.span.stop ≤ byteLength source ∧
      IsBoundary source error.position.span.start ∧ IsBoundary source error.position.span.stop := by
  obtain ⟨before,c,inside,after,whole,_,placed,_⟩ := error_stands reported
  have first : IsBoundary source (byteLength before) := by
    rw [whole,List.append_assoc]
    exact isBoundary_append before (c :: inside ++ after)
  have last : IsBoundary source (byteLength (before ++ c :: inside)) := by
    rw [whole]
    exact isBoundary_append (before ++ c :: inside) after
  have forward : byteLength before < byteLength (before ++ c :: inside) := by
    have size := c.utf8Size_pos
    rw [byteLength_append,byteLength_cons]
    omega
  rw [placed]
  exact ⟨forward,last.le_byteLength,first,last⟩

theorem notPartsReturn_plain {c : Char} (plain : isLineEnd c = false) (before behind : List Char) :
    ¬ PartsReturn before (c :: behind) := by
  intro parts
  obtain rfl := Option.some.inj parts.2
  cases plain

def windowLines (source : List Char) (span : Span) : List ShownLine :=
  let table := LineTable.ofText source
  shownLines (table.firstShown span + 1) (table.window span).start
    (slice source (table.window span).start (table.window span).stop)

section Window

variable {source before behind : List Char} {c : Char} {span : Span} (split : source = before ++ c :: behind)
  (plain : isLineEnd c = false) (start : span.start = byteLength before) (nonempty : span.start < span.stop)
  (inside : span.stop ≤ byteLength source)

-- The lines that are shown, as text: from the cut before the first of them to the cut
-- behind the last.
structure Framed (source before : List Char) (c : Char) (span : Span)
    (skipped inner rest after : List Char) : Prop where
  whole : source = skipped ++ (inner ++ c :: rest) ++ after
  front : before = skipped ++ inner
  start : byteLength skipped = ((LineTable.ofText source).window span).start
  shown : slice source ((LineTable.ofText source).window span).start ((LineTable.ofText source).window span).stop =
    inner ++ c :: rest
  count : (lineEnds 0 skipped).length = (LineTable.ofText source).firstShown span
  begins : ¬ PartsReturn skipped (inner ++ c :: rest ++ after)
  ends : ¬ PartsReturn (skipped ++ (inner ++ c :: rest)) after

include split plain start nonempty inside in
theorem window_framed : ∃ skipped inner rest after, Framed source before c span skipped inner rest after := by
  have apart := notPartsReturn_plain plain before behind
  have line : (LineTable.ofText source).lineAt span.start = (lineEnds 0 before).length := by
    rw [split,start,LineTable.lineAt_front apart]
  have first : (LineTable.ofText source).firstShown span ≤ (lineEnds 0 before).length := by
    rw [LineTable.firstShown,line]
    exact Nat.sub_le _ _
  have total : (lineEnds 0 before).length ≤ (lineEnds 0 source).length := by
    rw [split,lineEnds_append apart,List.length_append]
    exact Nat.le_add_right _ _
  have low : ((LineTable.ofText source).window span).start ≤ byteLength before := by
    rw [split] at first ⊢
    exact LineTable.startOf_le apart first
  have high : span.stop - 1 < ((LineTable.ofText source).window span).stop :=
    LineTable.startOf_later (by omega) (Nat.le_add_right _ _)
  obtain ⟨skipped,later,opened,begins,size,count⟩ := LineTable.startOf_cut source
    ((LineTable.ofText source).firstShown span)
  obtain ⟨front,after,closed,ends,stop,_⟩ := LineTable.startOf_cut source
    ((LineTable.ofText source).stoppedBy (span.stop - 1) + LineTable.contextLines + 1)
  change byteLength skipped = ((LineTable.ofText source).window span).start at size
  change byteLength front = ((LineTable.ofText source).window span).stop at stop
  rw [Nat.min_eq_left (Nat.le_trans first total)] at count
  obtain ⟨inner,rfl,tail⟩ := fronts_nested (opened.symm.trans split) (by omega)
  obtain ⟨mid,rfl,held⟩ := fronts_nested (split.symm.trans closed) (by omega)
  obtain ⟨rest,rfl⟩ : ∃ rest, mid = c :: rest := by
    cases mid with
    | nil =>
      rw [List.append_nil] at stop
      omega
    | cons d rest => exact ⟨rest,by rw [(List.cons.inj held).1]⟩
  rw [List.cons_append] at held
  have framed : source = skipped ++ (inner ++ c :: rest) ++ after := by
    rw [closed]
    simp only [List.append_assoc]
  refine ⟨skipped,inner,rest,after,framed,rfl,size,?_,count,?_,?_⟩
  · rw [← size,← stop,List.append_assoc]
    nth_rewrite 1 [framed]
    exact slice_between skipped (inner ++ c :: rest) after
  · rw [List.append_assoc,List.cons_append,← held,← tail]
    exact begins
  · rw [← List.append_assoc]
    exact ends

variable {skipped inner rest after : List Char} {shown : ShownLine}
  (framed : Framed source before c span skipped inner rest after)

include split plain start inside in
theorem excerpt_place :
    excerpt? source span =
      some
        { line := 1 + (lineFeeds before + loneReturns before)
          column := 1 + byteLength (lastLine before)
          lines := windowLines source span } := by
  have apart := notPartsReturn_plain plain before behind
  have covered : (LineTable.ofText source).covers span = true :=
    decide_eq_true (Nat.le_trans (Nat.sub_le _ _) inside)
  have line : (LineTable.ofText source).lineAt span.start + 1 = 1 + (lineFeeds before + loneReturns before) := by
    rw [start,split,LineTable.lineAt_front apart,lineEnds_length,Nat.add_comm]
  have column : (LineTable.ofText source).columnAt span.start + 1 = 1 + byteLength (lastLine before) := by
    rw [start,split,LineTable.columnAt_front apart,Nat.add_comm]
  rw [excerpt?,if_pos covered,← line,← column]
  rfl

include framed

theorem Framed.before_eq : byteLength before = ((LineTable.ofText source).window span).start + byteLength inner := by
  rw [framed.front,byteLength_append,framed.start]

theorem Framed.covered : ∃ shown ∈ windowLines source span,
    shown.start ≤ byteLength before ∧ byteLength before < shown.stop := by
  rw [windowLines,framed.shown]
  refine shownLines_cover ?_ ?_
  · rw [framed.before_eq]
    exact Nat.le_add_right _ _
  · have size := c.utf8Size_pos
    rw [framed.before_eq,byteLength_append,byteLength_cons]
    omega

theorem Framed.text_eq (member : shown ∈ windowLines source span) :
    ∃ ending ∈ lineEndings, slice source shown.start shown.stop = shown.text ++ ending := by
  rw [windowLines,framed.shown] at member
  obtain ⟨front,ending,back,listed,whole,start,size,_,_⟩ := shownLines_lie member
  refine ⟨ending,listed,?_⟩
  have split : source = skipped ++ front ++ (shown.text ++ ending) ++ (back ++ after) := by
    rw [framed.whole,whole]
    simp only [List.append_assoc]
  have first : shown.start = byteLength (skipped ++ front) := by rw [start,byteLength_append,framed.start]
  have last : shown.stop = byteLength (skipped ++ front ++ (shown.text ++ ending)) := by
    rw [ShownLine.stop,first,size,← byteLength_append]
  rw [first,last]
  nth_rewrite 1 [split]
  exact slice_between _ _ _

include split plain in
theorem Framed.number_eq (paired : loneReturns source = 0) (member : shown ∈ windowLines source span)
    (begins : shown.start ≤ byteLength before) (stops : byteLength before < shown.stop) :
    shown.number = 1 + (lineFeeds before + loneReturns before) := by
  have whole := framed.whole
  have returnless : loneReturns before = 0 := by
    rw [split,loneReturns_append (notPartsReturn_plain plain before behind)] at paired
    omega
  have last : (inner ++ c :: rest).getLast? ≠ some '\r' := by
    intro last
    have alone : 0 < loneReturns (skipped ++ (inner ++ c :: rest)) := by
      refine loneReturns_last ?_
      rw [List.getLast?_append,last]
      rfl
    rw [whole,loneReturns_append framed.ends] at paired
    omega
  have skippedReturns : loneReturns skipped = 0 := by
    rw [whole,List.append_assoc,loneReturns_append framed.begins] at paired
    omega
  have first := framed.count
  rw [lineEnds_length,skippedReturns] at first
  rw [windowLines,framed.shown] at member
  rw [framed.before_eq] at begins stops
  rw [returnless,shownLines_number plain last member begins stops,← first,framed.front,lineFeeds_append]
  omega

end Window

def blanks (count : Nat) : String := String.ofList (List.replicate count ' ')

def openingText (indent : Nat) (lines : List ShownLine) (line column : Nat) : String :=
  blanks indent ++ "╭─" ++
    if 1 < lines.length then "[" ++ line.repr ++ ":" ++ column.repr ++ "]" else "───"

def numberedText (gap : Nat) (mark : String) (line : ShownLine) : String :=
  " " ++ blanks gap ++ line.number.repr ++ " │ " ++ mark ++ String.ofList (expandTabs line.text)

theorem report_excerpt {source : List Char} {diagnostic : Diagnostic} {excerpt : Excerpt}
    (found : excerpt? source diagnostic.span = some excerpt) :
    ∃ (indent : Nat) (rows : List String),
      diagnostic.report source =
        "  × " ++ diagnostic.headline ++ "\n" ++
          openingText indent excerpt.lines excerpt.line excerpt.column ++ "\n" ++
            String.join (rows.map (· ++ "\n")) ∧
      ∀ shown ∈ excerpt.lines, ∃ gap mark, numberedText gap mark shown ∈ rows := by
  let margin := Diagnostic.marginOf diagnostic.span excerpt
  let row := fun line : ShownLine =>
    Diagnostic.textRow margin diagnostic.span line :: Diagnostic.marks margin diagnostic line
  let last := Diagnostic.spaces (margin.numberWidth + 2) ++ "╰────"
  refine ⟨margin.numberWidth + 2,excerpt.lines.flatMap row ++ [last],?_,?_⟩
  · rw [Diagnostic.report,Diagnostic.rows,found]
    simp only [Diagnostic.snippet,Diagnostic.openingRow,openingText,List.map_cons,List.cons_append,String.join_cons,
      String.append_assoc]
    rfl
  · intro shown member
    refine ⟨margin.numberWidth - shown.number.repr.length,
      if margin.gutter then Diagnostic.gutterMark diagnostic.span shown else "",?_⟩
    exact List.mem_append_left _ (List.mem_flatMap.mpr ⟨shown,member,List.mem_cons_self⟩)

theorem title_text (error : LexError) :
    "  × " ++ error.diagnostic.headline =
      "  × [line " ++ error.position.line.repr ++ "] Error: " ++ error.cause.message := by
  have opening : "  × " ++ "[line " = "  × [line " := by decide +kernel
  rw [← opening]
  simp only [LexError.diagnostic,LexError.headline,String.append_assoc]

-- A report names the line and the column that line feeds and single returns make of the
-- place where the scan saw the error. An unexpected character is on a later line of the
-- report than of the scan by the single returns before it; without any in the source the
-- line shown for it has the number too.
theorem report_place {source : List Char} {error : LexError} (reported : error ∈ (scan source).errors) :
    let start := error.position.span.start
    let before := slice source 0 start
    let line := 1 + (lineFeeds before + loneReturns before)
    let column := 1 + byteLength (lastLine before)
    ∃ (excerpt : Excerpt) (indent : Nat) (rows : List String),
      searchedExcerpt? source error.position.span = some excerpt ∧
      error.report source =
        "  × [line " ++ error.position.line.repr ++ "] Error: " ++ error.cause.message ++ "\n" ++
          openingText indent excerpt.lines line column ++ "\n" ++ String.join (rows.map (· ++ "\n")) ∧
      (∀ c, error.cause = .unexpectedCharacter c → line = error.position.line + loneReturns before) ∧
      (∃ shown ∈ excerpt.lines, shown.start ≤ start ∧ start < shown.stop) ∧
      ∀ shown ∈ excerpt.lines,
        (∃ ending ∈ lineEndings, slice source shown.start shown.stop = shown.text ++ ending) ∧
        (∃ gap mark, numberedText gap mark shown ∈ rows) ∧
        (loneReturns source = 0 → shown.start ≤ start → start < shown.stop → shown.number = line) := by
  obtain ⟨before,c,inside,after,whole,plain,span,counted⟩ := error_stands reported
  rw [List.append_assoc,List.cons_append] at whole
  have start : error.position.span.start = byteLength before := congrArg Span.start span
  obtain ⟨nonempty,within,_⟩ := error_bounds reported
  have front : slice source 0 error.position.span.start = before := by
    rw [start,whole]
    exact slice_front before (c :: (inside ++ after))
  have excerpt := excerpt_place whole plain start within
  have searched := (searchedExcerpt_eq source (Nat.le_of_lt nonempty)).trans excerpt
  obtain ⟨skipped,inner,rest,behind,framed⟩ := window_framed whole plain start nonempty within
  have covered := framed.covered
  rw [← start] at covered
  obtain ⟨indent,rows,written,listed⟩ :=
    report_excerpt (show excerpt? source error.diagnostic.span = some _ from excerpt)
  rw [title_text] at written
  subst front
  refine ⟨_,indent,rows,searched,written,?_,covered,?_⟩
  · intro character cause
    rw [counted character cause,Nat.add_assoc]
  · intro shown member
    refine ⟨framed.text_eq member,listed shown member,?_⟩
    intro returnless begins stops
    rw [start] at begins stops
    exact framed.number_eq whole plain returnless member begins stops

theorem report_place_return :
    let source := ['a','\r','\n','\r','@']
    let error : LexError := ⟨.unexpectedCharacter '@',⟨2,⟨4,5⟩⟩⟩
    let plain := ['\n','@']
    let other : LexError := ⟨.unexpectedCharacter '@',⟨2,⟨1,2⟩⟩⟩
    (error ∈ (scan source).errors ∧
      ∃ (indent : Nat) (rest : String), error.report source =
        "  × [line 2] Error: Unexpected character\n" ++ (blanks indent ++ "╭─[3:1]\n") ++ rest) ∧
    other ∈ (scan plain).errors ∧ loneReturns plain = 0 ∧
      ∃ excerpt, searchedExcerpt? plain ⟨1,2⟩ = some excerpt ∧
        ∃ shown ∈ excerpt.lines, (shown.start ≤ 1 ∧ 1 < shown.stop) ∧ shown.number = 2 := by
  intro source error plain other
  have stray : Segment.read '@' [] = (.stray '@',[]) := rfl
  refine ⟨?_,?_⟩
  · have word : Segment.read 'a' ['\r','\n','\r','@'] = (.word ['a'],['\r','\n','\r','@']) := rfl
    have first : Segment.read '\r' ['\n','\r','@'] = (.blank '\r',['\n','\r','@']) := rfl
    have feed : Segment.read '\n' ['\r','@'] = (.blank '\n',['\r','@']) := rfl
    have second : Segment.read '\r' ['@'] = (.blank '\r',['@']) := rfl
    have reported : error ∈ (scan source).errors := by
      rw [Scan.errors,scan,events_from,segments_cons,word,segments_cons,first,segments_cons,feed,segments_cons,
        second,segments_cons,stray,segments_nil]
      decide +kernel
    obtain ⟨excerpt,indent,rows,searched,written,_⟩ := report_place reported
    have shown : excerpt.lines = windowLines source ⟨4,5⟩ := by
      have place := @excerpt_place source ['a','\r','\n','\r'] [] '@' ⟨4,5⟩ rfl rfl rfl (by decide +kernel)
      rw [searchedExcerpt_eq source (by decide),show error.position.span = ⟨4,5⟩ from rfl,place] at searched
      rw [← Option.some.inj searched]
    have window : windowLines source ⟨4,5⟩ = shownLines 1 0 (['a','\r'] ++ '\n' :: ['\r','@']) := rfl
    have both : 1 < excerpt.lines.length := by
      rw [shown,window,shownLines_feed 1 0 (by decide),shownLines_last _ _ (by decide) (by decide)]
      decide
    have place : 1 + (lineFeeds (slice source 0 4) + loneReturns (slice source 0 4)) = 3 ∧
        1 + byteLength (lastLine (slice source 0 4)) = 1 := by decide +kernel
    have named : openingText indent excerpt.lines (1 + (lineFeeds (slice source 0 4) + loneReturns (slice source 0 4)))
        (1 + byteLength (lastLine (slice source 0 4))) ++ "\n" = blanks indent ++ "╭─[3:1]\n" := by
      have last : "╭─[3:1]\n" = "╭─" ++ ("[" ++ (3).repr ++ ":" ++ (1).repr ++ "]" ++ "\n") := by decide +kernel
      rw [openingText,if_pos both,place.1,place.2,last]
      simp only [String.append_assoc]
    have title : "  × [line 2] Error: Unexpected character\n" =
        "  × [line " ++ (2).repr ++ "] Error: " ++ (LexError.Cause.unexpectedCharacter '@').message ++ "\n" := by
      decide +kernel
    refine ⟨reported,indent,String.join (rows.map (· ++ "\n")),?_⟩
    rw [written,title,← named]
    simp only [String.append_assoc]
    rfl
  · have feed : Segment.read '\n' ['@'] = (.blank '\n',['@']) := rfl
    have reported : other ∈ (scan plain).errors := by
      rw [Scan.errors,scan,events_from,segments_cons,feed,segments_cons,stray,segments_nil]
      decide +kernel
    obtain ⟨excerpt,_,_,searched,_,_,covered,each⟩ := report_place reported
    obtain ⟨shown,member,bounds⟩ := covered
    have number := (each shown member).2.2 rfl bounds.1 bounds.2
    have line : 1 + (lineFeeds (slice plain 0 1) + loneReturns (slice plain 0 1)) = 2 := by decide +kernel
    exact ⟨reported,rfl,excerpt,searched,shown,member,bounds,number.trans line⟩

end ScriptLexer
