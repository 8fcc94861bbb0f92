import ScriptLexer.Segment.Basic

-- Reading one segment from the front of a text. Every reader gives back the segment
-- and the text behind it, and loses nothing: the two written one after the other are
-- the text that was read.
namespace ScriptLexer.Segment

-- The text before the first closing mark and the text behind the mark. The `*` of the
-- opening mark is already gone, so it cannot close what it opened.
def closeComment? (before : List Char) : List Char → Option (List Char × List Char)
  | '*' :: '/' :: rest => some (before.reverse,rest)
  | c :: rest => closeComment? (c :: before) rest
  | [] => none

def readFraction (text : List Char) : List Char × List Char :=
  match text with
  | '.' :: rest =>
    match rest.takeWhile Char.isDigit with
    | [] => ([],text)
    | digits => (digits,rest.dropWhile Char.isDigit)
  | _ => ([],text)

def readNumber (c : Char) (rest : List Char) : Segment × List Char :=
  let (fraction,after) := readFraction (rest.dropWhile Char.isDigit)
  (.number (c :: rest.takeWhile Char.isDigit) fraction,after)

def readWord (c : Char) (rest : List Char) : Segment × List Char :=
  (.word (c :: rest.takeWhile isWordPart),rest.dropWhile isWordPart)

def readString (rest : List Char) : Segment × List Char :=
  match rest.dropWhile (· != '"') with
  | _ :: after => (.string (rest.takeWhile (· != '"')),after)
  | [] => (.openString rest,[])

-- Called behind a slash. A line comment leaves its line feed to be read as blank.
def readSlash (rest : List Char) : Segment × List Char :=
  match rest with
  | '/' :: body => (.lineComment (body.takeWhile (· != '\n')),body.dropWhile (· != '\n'))
  | '*' :: body =>
    match closeComment? [] body with
    | some (inside,after) => (.blockComment inside,after)
    | none => (.openComment body,[])
  | _ => (.operator .slash,rest)

def readOperator (c : Char) (rest : List Char) : Segment × List Char :=
  match Operator.ofChar? c with
  | none => (.stray c,rest)
  | some o =>
    match o.withEqual?,rest with
    | some longer,'=' :: after => (.operator longer,after)
    | _,_ => (.operator o,rest)

def read (c : Char) (rest : List Char) : Segment × List Char :=
  if isBlank c then (.blank c,rest)
  else if c.isDigit then readNumber c rest
  else if isWordStart c then readWord c rest
  else if c == '"' then readString rest
  else if c == '/' then readSlash rest
  else readOperator c rest

theorem closeComment_text {before text inside after : List Char}
    (closed : closeComment? before text = some (inside,after)) :
    inside ++ '*' :: '/' :: after = before.reverse ++ text := by
  induction before,text using closeComment?.induct with
  | case1 before rest =>
    simp only [closeComment?,Option.some.injEq,Prod.mk.injEq] at closed
    obtain ⟨rfl,rfl⟩ := closed
    rfl
  | case2 before c rest other ih =>
    rw [closeComment?.eq_2 _ _ _ other] at closed
    simpa using ih closed
  | case3 before => cases closed

theorem readFraction_text (whole text : List Char) :
    numberText whole (readFraction text).1 ++ (readFraction text).2 = whole ++ text := by
  unfold readFraction
  split
  · rename_i rest
    cases digits : rest.takeWhile Char.isDigit with
    | nil => rfl
    | cons d more =>
      have joined := List.takeWhile_append_dropWhile (p := Char.isDigit) (l := rest)
      rw [digits] at joined
      simpa [numberText] using joined
  · rfl

theorem readNumber_text (c : Char) (rest : List Char) :
    (readNumber c rest).1.text ++ (readNumber c rest).2 = c :: rest := by
  simp only [readNumber,text,readFraction_text,List.cons_append,List.takeWhile_append_dropWhile]

theorem readWord_text (c : Char) (rest : List Char) :
    (readWord c rest).1.text ++ (readWord c rest).2 = c :: rest := by
  simp only [readWord,text,List.cons_append,List.takeWhile_append_dropWhile]

theorem readString_text (rest : List Char) :
    (readString rest).1.text ++ (readString rest).2 = '"' :: rest := by
  have joined := List.takeWhile_append_dropWhile (p := (· != '"')) (l := rest)
  unfold readString
  split
  · rename_i quote after left
    have closing : quote = '"' := by
      have stopped := List.head?_dropWhile_not (· != '"') rest
      simpa [left] using stopped
    rw [left,closing] at joined
    simpa [text] using joined
  · simp [text]

theorem readSlash_text (rest : List Char) :
    (readSlash rest).1.text ++ (readSlash rest).2 = '/' :: rest := by
  unfold readSlash
  split
  · simp only [text,List.cons_append,List.takeWhile_append_dropWhile]
  · rename_i body
    cases closed : closeComment? [] body with
    | none => simp [text]
    | some pair =>
      have joined := closeComment_text closed
      simpa [text] using joined
  · rfl

theorem readOperator_text (c : Char) (rest : List Char) :
    (readOperator c rest).1.text ++ (readOperator c rest).2 = c :: rest := by
  unfold readOperator
  split
  · rfl
  · rename_i o found
    have written := Operator.text_of_ofChar found
    split
    · rename_i longer after joined
      simp [text,Operator.text_of_withEqual joined,written]
    · simp [text,written]

theorem read_text (c : Char) (rest : List Char) :
    (read c rest).1.text ++ (read c rest).2 = c :: rest := by
  unfold read
  split
  · rfl
  split
  · exact readNumber_text c rest
  split
  · exact readWord_text c rest
  split
  · rename_i quote
    rw [readString_text,beq_iff_eq.mp quote]
  split
  · rename_i slash
    rw [readSlash_text,beq_iff_eq.mp slash]
  · exact readOperator_text c rest

theorem read_ne_nil (c : Char) (rest : List Char) : (read c rest).1.text ≠ [] := by
  have numbers (whole fraction : List Char) : numberText (c :: whole) fraction ≠ [] := by
    cases fraction <;> simp [numberText]
  have operators (o : Operator) : o.text ≠ [] := by cases o <;> decide
  unfold read
  split
  · simp [text]
  split
  · exact numbers _ _
  split
  · simp [readWord,text]
  split
  · unfold readString; split <;> simp [text]
  split
  · unfold readSlash
    split
    · simp [text]
    · split <;> simp [text]
    · exact operators .slash
  · unfold readOperator
    split
    · simp [text]
    · split <;> exact operators _

theorem read_length (c : Char) (rest : List Char) : (read c rest).2.length < (c :: rest).length := by
  have whole := congrArg List.length (read_text c rest)
  have positive := List.length_pos_iff.mpr (read_ne_nil c rest)
  rw [List.length_append] at whole
  omega

end ScriptLexer.Segment
