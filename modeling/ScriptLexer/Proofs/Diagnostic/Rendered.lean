import ScriptLexer.Proofs.Diagnostic.Drawn

namespace ScriptLexer

section Cuts

variable {source text front back : List Char} {start stop : Nat}

theorem encoded_append (front back : List Char) : encoded (front ++ back) = encoded front ++ encoded back :=
  List.flatMap_append

theorem cut_eq_some : cut? source start stop = some text ↔
    ∃ before after, source = before ++ text ++ after ∧ start = byteLength before ∧
      stop = byteLength (before ++ text) := by
  constructor
  · intro found
    unfold cut? at found
    split at found
    · rename_i allowed
      obtain ⟨ordered,first,last⟩ := allowed
      obtain ⟨before,rest,opened,rfl⟩ := isBoundary_iff.mp first
      obtain ⟨front,after,closed,rfl⟩ := isBoundary_iff.mp last
      obtain ⟨mid,rfl,_⟩ := fronts_nested (opened.symm.trans closed) ordered
      refine ⟨before,after,?_,rfl,?_⟩
      all_goals
        obtain rfl := Option.some.inj found
        rw [closed,slice_between]
    · cases found
  · intro placed
    obtain ⟨before,after,rfl,rfl,rfl⟩ := placed
    exact cut_between before text after

theorem slice_of_cut (found : cut? source start stop = some text) : slice source start stop = text := by
  unfold cut? at found
  split at found
  · exact Option.some.inj found
  · cases found

theorem cut_part (found : cut? source start stop = some (front ++ text ++ back)) :
    cut? source (start + byteLength front) (start + byteLength front + byteLength text) = some text := by
  obtain ⟨before,after,rfl,rfl,_⟩ := cut_eq_some.mp found
  refine cut_eq_some.mpr ⟨before ++ front,back ++ after,?_,?_,?_⟩
  · simp
  · simp [byteLength_append]
  · simp [byteLength_append,Nat.add_assoc]

theorem cut_encoded (found : cut? source start stop = some text) :
    ((encoded source).drop start).take (stop - start) = encoded text := by
  obtain ⟨before,after,rfl,rfl,rfl⟩ := cut_eq_some.mp found
  have size : byteLength (before ++ text) - byteLength before = (encoded text).length := by
    rw [byteLength_append,length_encoded]
    omega
  rw [encoded_append,encoded_append,size,← length_encoded before,List.append_assoc,List.drop_left,List.take_left]

theorem startOf_boundary (source : List Char) (line : Nat) :
    IsBoundary source ((LineTable.ofText source).startOf line) := by
  obtain ⟨front,back,split,_,size,_⟩ := LineTable.startOf_cut source line
  exact isBoundary_iff.mpr ⟨front,back,split,size⟩

-- The bytes of a range are those of this text, so no character is cut in two.
structure CutsOut (source : List Char) (start stop : Nat) (text : List Char) : Prop where
  cut : cut? source start stop = some text
  bytes : ((encoded source).drop start).take (stop - start) = encoded text

theorem cutsOut_of_cut (found : cut? source start stop = some text) : CutsOut source start stop text :=
  ⟨found,cut_encoded found⟩

theorem shownLines_cut {number : Nat} {shown : ShownLine} (found : cut? source start stop = some text)
    (member : shown ∈ shownLines number start text) :
    (∃ ending ∈ lineEndings, CutsOut source shown.start shown.stop (shown.text ++ ending)) ∧
      (text.getLast? ≠ some '\r' → shown.number = number + lineFeeds (slice source start shown.start)) := by
  obtain ⟨front,ending,back,listed,rfl,place,size,_,count⟩ := shownLines_lie member
  have part := cut_part found
  rw [← place,← size] at part
  rw [List.append_assoc] at found
  have before := @cut_part source front [] _ start stop found
  rw [byteLength_nil,Nat.add_zero,← place] at before
  refine ⟨⟨ending,listed,cutsOut_of_cut part⟩,?_⟩
  intro last
  rw [slice_of_cut before]
  exact count last

end Cuts

def fallbackText (label : String) (span : Span) : String :=
  "  [Failed to read contents for label `" ++ label ++ "` (offset: " ++ span.start.repr ++ ", length: " ++
    (span.stop - span.start).repr ++ "): OutOfBounds]"

def wording : LexError.Cause → String × String
  | .unexpectedCharacter c => ("Unexpected character","`" ++ String.singleton c ++ "`")
  | .unterminatedString => ("Unterminated string","string starts here")

-- The two ways to go on below a headline differ in their third column.
theorem opening_apart (indent : Nat) (lines : List ShownLine) (line column : Nat) (label : String) (span : Span)
    (rest other : String) :
    openingText (indent + 2) lines line column ++ rest ≠ fallbackText label span ++ other := by
  intro same
  have opened : (openingText (indent + 2) lines line column ++ rest).toList[2]? ≠ some '[' := by
    simp only [openingText,blanks,String.toList_append,String.toList_ofList,List.append_assoc]
    cases indent with
    | zero => simp
    | succ indent => simp [List.replicate_succ]
  have failed : (fallbackText label span ++ other).toList[2]? = some '[' := by
    unfold fallbackText
    simp only [String.toList_append,List.append_assoc]
    rw [List.getElem?_append_left (by decide +kernel)]
    decide +kernel
  exact opened (same ▸ failed)

theorem rows_apart (title : String) (indent : Nat) (lines : List ShownLine) (line column : Nat) (rows : List String)
    (label : String) (span : Span) :
    String.join ((title :: openingText (indent + 2) lines line column :: rows).map (· ++ "\n")) ≠
      String.join ([title,fallbackText label span].map (· ++ "\n")) := by
  intro same
  simp only [List.map_cons,String.join_cons,String.append_assoc] at same
  have below := congrArg String.toList same
  simp only [String.toList_append] at below
  have cancelled := List.append_cancel_left (List.append_cancel_left below)
  simp only [← String.toList_append] at cancelled
  exact opening_apart indent lines line column label span _ _ (String.toList_inj.mp cancelled)

theorem LexError.report_title (error : LexError) :
    "  × " ++ error.headline = "  × [line " ++ error.position.line.repr ++ "] Error: " ++ (wording error.cause).1 := by
  have title := title_text error
  cases cause : error.cause <;> rw [cause] at title <;> exact title

theorem LexError.report_label (error : LexError) : error.diagnostic.label = (wording error.cause).2 := by
  unfold LexError.diagnostic
  cases error.cause <;> rfl

theorem LexError.report_rows {source : List Char} {error : LexError} {excerpt : Excerpt}
    (found : excerpt? source error.position.span = some excerpt) :
    error.report source =
      String.join ((("  × " ++ error.headline) :: error.diagnostic.snippet excerpt).map (· ++ "\n")) := by
  have shown : error.diagnostic.rows source = ("  × " ++ error.headline) :: error.diagnostic.snippet excerpt := by
    unfold Diagnostic.rows
    rw [show excerpt? source error.diagnostic.span = some excerpt from found]
    rfl
  rw [LexError.report,Diagnostic.report,shown]

section Window

variable {source : List Char} {span : Span}

theorem found_excerpt (nonempty : span.start < span.stop) (within : span.stop ≤ byteLength source) :
    ∃ window place : Found,
      Search.found span 3 3 (encoded source) = some window ∧
      Search.found span 0 0 (encoded source) = some place ∧
      window.start = ((LineTable.ofText source).window span).start ∧
      window.stop = ((LineTable.ofText source).window span).stop ∧
      excerpt? source span = some ⟨place.line + 1,place.column + 1,
        shownLines (window.line + 1) window.start (slice source window.start window.stop)⟩ := by
  have last : span.last = span.stop - 1 := by
    unfold Span.last Span.length
    omega
  have inside : span.stop - 1 ≤ byteLength source := by omega
  have around := @Search.found_window source span 3 3 (by decide) (by decide)
  have there := Search.found_place source span
  rw [last,if_pos inside] at around there
  obtain ⟨place,found,named⟩ := Option.map_eq_some_iff.mp there
  obtain ⟨line,column⟩ := Prod.mk.inj named
  refine ⟨_,place,around,found,rfl,rfl,?_⟩
  have covered : (LineTable.ofText source).covers span = true := decide_eq_true inside
  rw [excerpt?,if_pos covered,line,column]
  rfl

end Window

theorem error_opened {source : List Char} {error : LexError} (reported : error ∈ (scan source).errors) :
    ((LineTable.ofText source).window error.position.span).start ≤ error.position.span.start := by
  obtain ⟨nonempty,within,_⟩ := error_bounds reported
  obtain ⟨before,c,inside,after,whole,plain,placed,_⟩ := error_stands reported
  have start : error.position.span.start = byteLength before := congrArg Span.start placed
  rw [List.append_assoc,List.cons_append] at whole
  obtain ⟨skipped,inner,rest,behind,framed⟩ := window_framed whole plain start nonempty within
  rw [start,framed.before_eq]
  exact Nat.le_add_right _ _

-- The window is cut out around the whole span and every byte of it is in some line that is
-- shown, so the line where the span stops is drawn too, and with it the label.
theorem report_whole {source : List Char} {error : LexError} (reported : error ∈ (scan source).errors) :
    let span := error.position.span
    let title := "  × [line " ++ error.position.line.repr ++ "] Error: " ++ (wording error.cause).1
    let label := (wording error.cause).2
    (span.start < span.stop ∧ span.stop ≤ byteLength source ∧ IsBoundary source span.start ∧
      IsBoundary source span.stop) ∧
    ∃ (window place : Found) (text : List Char) (body : List (List String)),
      Search.found span 3 3 (encoded source) = some window ∧
      Search.found span 0 0 (encoded source) = some place ∧
      CutsOut source window.start window.stop text ∧ window.start ≤ span.start ∧ span.stop ≤ window.stop ∧
      let lines := shownLines (window.line + 1) window.start text
      let width := ((lines.getLast?.map ShownLine.number).getD 0).repr.length
      (∀ shown ∈ lines,
        (∃ ending ∈ lineEndings, CutsOut source shown.start shown.stop (shown.text ++ ending)) ∧
        (text.getLast? ≠ some '\r' →
          shown.number = window.line + 1 + lineFeeds (slice source window.start shown.start))) ∧
      (∀ offset, window.start ≤ offset → offset < window.stop →
        ∃ shown ∈ lines, shown.start ≤ offset ∧ offset < shown.stop) ∧
      List.Forall₂ (Drawn width span label) lines body ∧
      error.report source =
        String.join ((title :: openingText (width + 2) lines (place.line + 1) (place.column + 1) ::
          body.flatten ++ [blanks (width + 2) ++ "╰────"]).map (· ++ "\n")) ∧
      error.report source ≠ String.join ([title,fallbackText label span].map (· ++ "\n")) := by
  intro span title label
  obtain ⟨(nonempty : span.start < span.stop),(within : span.stop ≤ byteLength source),first,last⟩ :=
    error_bounds reported
  obtain ⟨window,place,around,there,opens,closes,excerpt⟩ := found_excerpt nonempty within
  have early : window.start ≤ span.start := opens.trans_le (error_opened reported)
  have late : span.stop - 1 < window.stop := by
    rw [closes]
    exact LineTable.startOf_later (by omega) (Nat.le_add_right _ _)
  have cut : cut? source window.start window.stop = some (slice source window.start window.stop) := by
    refine if_pos ⟨by omega,?_,?_⟩
    · rw [opens]
      exact startOf_boundary source _
    · rw [closes]
      exact startOf_boundary source ((LineTable.ofText source).stoppedBy (span.stop - 1) + LineTable.contextLines + 1)
  have size : window.start + byteLength (slice source window.start window.stop) = window.stop := by
    obtain ⟨front,_,_,opened,closed⟩ := cut_eq_some.mp cut
    rw [byteLength_append] at closed
    omega
  have rows := LexError.report_rows excerpt
  obtain ⟨body,drawn,snippet⟩ := @Diagnostic.snippet_drawn error.diagnostic nonempty _
  rw [error.report_label] at drawn
  rw [snippet,error.report_title] at rows
  refine ⟨⟨nonempty,within,first,last⟩,window,place,_,body,around,there,cutsOut_of_cut cut,early,by omega,
    fun line member => shownLines_cut cut member,?_,drawn,rows,?_⟩
  · intro offset above below
    exact shownLines_cover above (by omega)
  · rw [rows]
    exact rows_apart _ _ _ _ _ _ _ _

theorem report_whole_open :
    let source := ['é','\r','\n','"','x','\n','é']
    let error : LexError := ⟨.unterminatedString,⟨3,⟨4,9⟩⟩⟩
    error ∈ (scan source).errors ∧ IsBoundary source 4 ∧ IsBoundary source 9 ∧
      (∃ (window : Found) (text : List Char), Search.found ⟨4,9⟩ 3 3 (encoded source) = some window ∧
        CutsOut source window.start window.stop text ∧ window.start ≤ 4 ∧ 9 ≤ window.stop) ∧
      error.report source =
        "  × [line 3] Error: Unterminated string\n   ╭─[2:1]\n 1 │     é\n 2 │ ╭─▶ \"x\n 3 │ ├─▶ é\n" ++
        "   · ╰──── string starts here\n   ╰────\n" ∧
      error.report source ≠ String.join (["  × [line 3] Error: Unterminated string",
        "  [Failed to read contents for label `string starts here` (offset: 4, length: 5): OutOfBounds]"].map
          (· ++ "\n")) := by
  intro source error
  have stray : Segment.read 'é' ['\r','\n','"','x','\n','é'] = (.stray 'é',['\r','\n','"','x','\n','é']) := rfl
  have turn : Segment.read '\r' ['\n','"','x','\n','é'] = (.blank '\r',['\n','"','x','\n','é']) := rfl
  have feed : Segment.read '\n' ['"','x','\n','é'] = (.blank '\n',['"','x','\n','é']) := rfl
  have opened : Segment.read '"' ['x','\n','é'] = (.openString ['x','\n','é'],[]) := rfl
  have reported : error ∈ (scan source).errors := by
    rw [Scan.errors,scan,events_from,segments_cons,stray,segments_cons,turn,segments_cons,feed,segments_cons,
      opened,segments_nil]
    decide +kernel
  obtain ⟨⟨_,_,first,last⟩,window,_,text,_,around,_,cut,early,late,_,_,_,_,whole⟩ := report_whole reported
  have title : "  × [line " ++ (3).repr ++ "] Error: " ++ (wording .unterminatedString).1 =
      "  × [line 3] Error: Unterminated string" := by decide +kernel
  have failed : fallbackText (wording .unterminatedString).2 ⟨4,9⟩ =
      "  [Failed to read contents for label `string starts here` (offset: 4, length: 5): OutOfBounds]" := by
    decide +kernel
  dsimp only [error] at whole
  rw [title,failed] at whole
  refine ⟨reported,first,last,⟨window,text,around,cut,early,late⟩,?_,whole⟩
  decide +kernel

end ScriptLexer
