import ScriptLexer.Proofs.Diagnostic.Place

-- What a report draws below its headline, told by the lines it shows and not by the rows
-- that it is put together from.
namespace ScriptLexer

-- A tab becomes spaces, up to the next stop; inside an escape it takes no column at all.
inductive Spread : List Char → List Char → Prop where
  | nil : Spread [] []
  | tab {text shown : List Char} {columns : Nat} (fits : columns ≤ 4) (rest : Spread text shown) :
      Spread ('\t' :: text) (List.replicate columns ' ' ++ shown)
  | other {c : Char} {text shown : List Char} (plain : c ≠ '\t') (rest : Spread text shown) :
      Spread (c :: text) (c :: shown)

theorem width_tab (cursor : Cursor) : cursor.width '\t' ≤ 4 := by
  unfold Cursor.width tabStop
  split
  · exact Nat.zero_le 4
  · exact Nat.sub_le 4 _

theorem spread_expandTabs (text : List Char) : Spread text (expandTabs text) := by
  unfold expandTabs
  generalize Cursor.start = cursor
  induction text generalizing cursor with
  | nil => exact .nil
  | cons c text ih =>
    rw [List.scanl_cons,List.zip_cons_cons,List.flatMap_cons]
    by_cases tab : c = '\t'
    · subst tab
      exact .tab (width_tab cursor) (ih _)
    · dsimp only
      rw [if_neg tab]
      exact .other tab (ih _)

def lineRow (width : Nat) (mark : String) (number : Nat) (shown : List Char) : String :=
  " " ++ blanks (width - number.repr.length) ++ number.repr ++ " │ " ++ mark ++ String.ofList shown

def marksRow (width : Nat) (mark marks : String) : String := " " ++ blanks width ++ " · " ++ mark ++ marks

def stroke (count : Nat) : String := String.ofList (List.replicate count '─')

-- The label stands below the line where the span stops: under the span if the line holds
-- all of it, at the end of the gutter if the span began above. No other line is marked.
inductive Drawn (width : Nat) (span : Span) (label : String) (line : ShownLine) : List String → Prop where
  | plain {mark : String} {shown : List Char} (listed : mark ∈ ["","    ","╭─▶ ","│   "])
      (spread : Spread line.text shown) (apart : line.stop < span.stop ∨ span.stop ≤ line.start) :
      Drawn width span label line [lineRow width mark line.number shown]
  | within {mark : String} {shown : List Char} {column left right : Nat} (listed : mark ∈ ["","    "])
      (spread : Spread line.text shown) (begins : line.start ≤ span.start) (stops : span.stop ≤ line.stop) :
      Drawn width span label line [lineRow width mark line.number shown,
        marksRow width mark (blanks column ++ stroke left ++ "┬" ++ stroke right),
        marksRow width mark (blanks (column + left) ++ "╰── " ++ label)]
  | last {shown : List Char} (spread : Spread line.text shown) (begun : span.start < line.start)
      (begins : line.start < span.stop) (stops : span.stop ≤ line.stop) :
      Drawn width span label line [lineRow width "├─▶ " line.number shown,
        marksRow width "╰───" ("─ " ++ label)]

namespace Diagnostic

variable {diagnostic : Diagnostic} {excerpt : Excerpt} {line : ShownLine} {margin : Margin} {span : Span}

section Line

variable (nonempty : span.start < span.stop)

include nonempty

theorem reach_eq : ShownLine.reach span = span.stop := by
  unfold ShownLine.reach Span.length
  omega

theorem touches_iff : line.touches span = true ↔ span.start < line.stop ∧ line.start < span.stop := by
  have forward : line.start ≤ line.stop := Nat.le_add_right _ _
  simp only [ShownLine.touches,ShownLine.opens,ShownLine.within,ShownLine.closes,reach_eq nonempty,
    Bool.or_eq_true,Bool.and_eq_true,decide_eq_true_eq]
  omega

theorem holds_touches (begins : line.start ≤ span.start) (stops : span.stop ≤ line.stop) :
    line.touches span = true ∧ line.holds span = true ∧ line.inGutter span = false := by
  have touches : line.touches span = true := (touches_iff nonempty).mpr (by omega)
  refine ⟨touches,?_,?_⟩
  · simp [ShownLine.holds,begins,stops]
  · simp [ShownLine.inGutter,ShownLine.opens,ShownLine.closes,reach_eq nonempty]
    omega

theorem last_touches (begun : span.start < line.start) (begins : line.start < span.stop)
    (stops : span.stop ≤ line.stop) :
    line.touches span = true ∧ line.holds span = false ∧ line.labelled span = true ∧ line.inGutter span = true := by
  have touches : line.touches span = true := (touches_iff nonempty).mpr (by omega)
  refine ⟨touches,?_,?_,?_⟩
  · simp [ShownLine.holds,begun]
  · simp [ShownLine.labelled,begun,begins.le,stops]
  · simp [ShownLine.inGutter,touches,ShownLine.opens,begun]

theorem apart_marked (apart : line.stop < span.stop ∨ span.stop ≤ line.start) (touches : line.touches span = true) :
    line.holds span = false ∧ line.labelled span = false := by
  obtain ⟨begins,stops⟩ := (touches_iff nonempty).mp touches
  simp only [ShownLine.holds,ShownLine.labelled,Bool.and_eq_false_iff,decide_eq_false_iff_not]
  omega

theorem apart_mark (apart : line.stop < span.stop ∨ span.stop ≤ line.start) :
    gutterMark span line ∈ ["    ","╭─▶ ","│   "] := by
  unfold gutterMark
  cases inside : line.inGutter span with
  | false => exact List.mem_cons_self
  | true =>
    have touches := (Bool.and_eq_true_iff.mp inside).1
    simp only [(apart_marked nonempty apart touches).2,Bool.not_true,Bool.false_eq_true,if_false]
    split_ifs <;> simp

end Line

section Drawing

variable (nonempty : diagnostic.span.start < diagnostic.span.stop)

include nonempty

theorem drawn_apart (apart : line.stop < diagnostic.span.stop ∨ diagnostic.span.stop ≤ line.start) :
    Drawn margin.numberWidth diagnostic.span diagnostic.label line
      (textRow margin diagnostic.span line :: marks margin diagnostic line) := by
  have unmarked : marks margin diagnostic line = [] := by
    cases touches : line.touches diagnostic.span with
    | false => simp [marks,touches]
    | true =>
      obtain ⟨notHeld,notLabelled⟩ := apart_marked nonempty apart touches
      simp [marks,notHeld,notLabelled]
  have listed : (if margin.gutter then gutterMark diagnostic.span line else "") ∈ ["","    ","╭─▶ ","│   "] := by
    split
    · exact List.mem_cons_of_mem _ (apart_mark nonempty apart)
    · exact List.mem_cons_self
  rw [unmarked]
  exact .plain listed (spread_expandTabs line.text) apart

theorem drawn_within (begins : line.start ≤ diagnostic.span.start) (stops : diagnostic.span.stop ≤ line.stop) :
    Drawn margin.numberWidth diagnostic.span diagnostic.label line
      (textRow margin diagnostic.span line :: marks margin diagnostic line) := by
  obtain ⟨touches,holds,outside⟩ := holds_touches nonempty begins stops
  let mark := if margin.gutter then "    " else ""
  let column := line.startColumn diagnostic.span
  let last := max (line.stopColumn diagnostic.span) (column + 1)
  let middle := (column + last) / 2
  have listed : mark ∈ ["","    "] := by
    unfold mark
    split <;> simp
  have length : diagnostic.span.length ≠ 0 := Nat.sub_ne_zero_of_lt nonempty
  have between : column + (middle - column) = middle := by
    unfold middle last
    omega
  have row : textRow margin diagnostic.span line =
      lineRow margin.numberWidth mark line.number (expandTabs line.text) := by
    unfold textRow gutterMark
    rw [outside]
    rfl
  have below : marks margin diagnostic line =
      [marksRow margin.numberWidth mark
        (blanks column ++ stroke (middle - column) ++ "┬" ++ stroke (last - middle - 1)),
       marksRow margin.numberWidth mark (blanks middle ++ "╰── " ++ diagnostic.label)] := by
    simp only [marks,touches,holds,underline,outside,length,Bool.not_true,Bool.false_eq_true,if_false,if_true]
    rfl
  have drawn := @Drawn.within margin.numberWidth diagnostic.span diagnostic.label line mark _ column
    (middle - column) (last - middle - 1) listed (spread_expandTabs line.text) begins stops
  rw [between] at drawn
  rw [row,below]
  exact drawn

theorem drawn_last (gutter : margin.gutter = true) (begun : diagnostic.span.start < line.start)
    (begins : line.start < diagnostic.span.stop) (stops : diagnostic.span.stop ≤ line.stop) :
    Drawn margin.numberWidth diagnostic.span diagnostic.label line
      (textRow margin diagnostic.span line :: marks margin diagnostic line) := by
  obtain ⟨touches,notHeld,labelled,inside⟩ := last_touches nonempty begun begins stops
  have row : textRow margin diagnostic.span line =
      lineRow margin.numberWidth "├─▶ " line.number (expandTabs line.text) := by
    unfold textRow gutterMark
    simp only [gutter,inside,labelled,Nat.not_le.mpr begun,Bool.not_true,Bool.false_eq_true,if_false,if_true]
    rfl
  have below : marks margin diagnostic line = [marksRow margin.numberWidth "╰───" ("─ " ++ diagnostic.label)] := by
    simp only [marks,markRow,gutter,touches,notHeld,labelled,inside,Bool.not_true,Bool.false_eq_true,if_false,
      if_true]
    rfl
  rw [row,below]
  exact .last (spread_expandTabs line.text) begun begins stops

theorem drawn_line (member : line ∈ excerpt.lines) :
    Drawn (marginOf diagnostic.span excerpt).numberWidth diagnostic.span diagnostic.label line
      (textRow (marginOf diagnostic.span excerpt) diagnostic.span line ::
        marks (marginOf diagnostic.span excerpt) diagnostic line) := by
  by_cases reached : line.start < diagnostic.span.stop ∧ diagnostic.span.stop ≤ line.stop
  · obtain ⟨begins,stops⟩ := reached
    by_cases whole : line.start ≤ diagnostic.span.start
    · exact drawn_within nonempty whole stops
    · have begun := Nat.lt_of_not_le whole
      obtain ⟨_,notHeld,_,inside⟩ := last_touches nonempty begun begins stops
      have gutter : (marginOf diagnostic.span excerpt).gutter = true := by
        refine List.any_eq_true.mpr ⟨line,member,?_⟩
        rw [inside,notHeld]
        rfl
      exact drawn_last nonempty gutter begun begins stops
  · exact drawn_apart nonempty (by omega)

theorem snippet_drawn (excerpt : Excerpt) :
    ∃ body, List.Forall₂ (Drawn (marginOf diagnostic.span excerpt).numberWidth diagnostic.span diagnostic.label)
        excerpt.lines body ∧
      diagnostic.snippet excerpt =
        openingText ((marginOf diagnostic.span excerpt).numberWidth + 2) excerpt.lines excerpt.line excerpt.column ::
          body.flatten ++ [blanks ((marginOf diagnostic.span excerpt).numberWidth + 2) ++ "╰────"] := by
  let margin := marginOf diagnostic.span excerpt
  let row := fun line : ShownLine => textRow margin diagnostic.span line :: marks margin diagnostic line
  refine ⟨excerpt.lines.map row,?_,?_⟩
  · rw [List.forall₂_map_right_iff,List.forall₂_same]
    exact fun line member => drawn_line nonempty member
  · rw [← List.flatMap_def]
    rfl

end Drawing

end Diagnostic

end ScriptLexer
