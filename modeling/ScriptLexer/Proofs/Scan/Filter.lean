import ScriptLexer.Proofs.Segment.Splits

-- What remains of a source without blanks and comments, by a filter of four states that
-- looks at most at two characters and knows nothing of segments.
namespace ScriptLexer

inductive FilterState where
  | code
  | string
  | lineComment
  | blockComment
deriving DecidableEq

def strip : FilterState → List Char → List Char × FilterState
  | state,[] => ([],state)
  | .code,'/' :: '/' :: rest => strip .lineComment rest
  | .code,'/' :: '*' :: rest => strip .blockComment rest
  | .code,c :: rest =>
    let behind := strip (if c = '"' then .string else .code) rest
    (if c ∈ [' ','\r','\t','\n'] then behind.1 else c :: behind.1,behind.2)
  | .string,c :: rest =>
    let behind := strip (if c = '"' then .code else .string) rest
    (c :: behind.1,behind.2)
  | .lineComment,c :: rest => strip (if c = '\n' then .code else .lineComment) rest
  | .blockComment,'*' :: '/' :: rest => strip .code rest
  | .blockComment,_ :: rest => strip .blockComment rest

def keep (text : List Char) (behind : List Char × FilterState) : List Char × FilterState :=
  (text ++ behind.1,behind.2)

structure IsPlain (c : Char) : Prop where
  notBlank : isBlank c = false
  notQuote : c ≠ '"'
  notSlash : c ≠ '/'

theorem strip_code {c : Char} {rest : List Char}
    (plain : c = '/' → Stops (fun d => d == '/' || d == '*') rest) (notQuote : c ≠ '"') :
    strip .code (c :: rest) = keep (if isBlank c = true then [] else [c]) (strip .code rest) := by
  have line : ∀ text, c = '/' → rest = '/' :: text → False := by
    intro text slash opens
    have stops := plain slash
    rw [opens,stops_cons] at stops
    cases stops
  have block : ∀ text, c = '/' → rest = '*' :: text → False := by
    intro text slash opens
    have stops := plain slash
    rw [opens,stops_cons] at stops
    cases stops
  rw [strip.eq_4 c rest line block,if_neg notQuote]
  by_cases blank : isBlank c = true
  · rw [if_pos (isBlank_iff.mp blank),if_pos blank]
    rfl
  · rw [if_neg (fun member => blank (isBlank_iff.mpr member)),if_neg blank]
    rfl

theorem strip_blank {c : Char} (rest : List Char) (blank : isBlank c = true) :
    strip .code (c :: rest) = strip .code rest := by
  have notQuote : c ≠ '"' := by
    intro same
    rw [same] at blank
    cases blank
  have notSlash : c ≠ '/' := by
    intro same
    rw [same] at blank
    cases blank
  rw [strip_code (fun slash => absurd slash notSlash) notQuote,if_pos blank]
  rfl

theorem strip_plain {text : List Char} (after : List Char) (plain : ∀ c ∈ text, IsPlain c) :
    strip .code (text ++ after) = keep text (strip .code after) := by
  induction text with
  | nil => rfl
  | cons c text ih =>
    have first := plain c (by simp)
    have others := ih (fun d member => plain d (List.mem_cons_of_mem c member))
    rw [List.cons_append,strip_code (fun slash => absurd slash first.notSlash) first.notQuote,others,
      if_neg (by rw [first.notBlank]; decide)]
    rfl

theorem strip_quote (rest : List Char) : strip .code ('"' :: rest) = keep ['"'] (strip .string rest) := rfl

theorem strip_unquoted {body : List Char} (after : List Char) (inside : ∀ c ∈ body, (c != '"') = true) :
    strip .string (body ++ after) = keep body (strip .string after) := by
  induction body with
  | nil => rfl
  | cons c body ih =>
    have notQuote : c ≠ '"' := bne_iff_ne.mp (inside c (by simp))
    have others := ih (fun d member => inside d (List.mem_cons_of_mem c member))
    rw [List.cons_append,strip,if_neg notQuote,others]
    rfl

theorem strip_string {body : List Char} (after : List Char) (inside : ∀ c ∈ body, (c != '"') = true) :
    strip .string (body ++ '"' :: after) = keep (body ++ ['"']) (strip .code after) := by
  have closing : strip .string ('"' :: after) = keep ['"'] (strip .code after) := rfl
  rw [strip_unquoted _ inside,closing]
  simp only [keep,List.append_assoc]

theorem strip_openString {body : List Char} (inside : ∀ c ∈ body, (c != '"') = true) :
    strip .string body = (body,.string) := by
  have whole := strip_unquoted [] inside
  rwa [List.append_nil,strip,keep,List.append_nil] at whole

theorem strip_lineComment {body : List Char} (after : List Char)
    (inside : ∀ c ∈ body, (c != '\n') = true) :
    strip .lineComment (body ++ after) = strip .lineComment after := by
  induction body with
  | nil => rfl
  | cons c body ih =>
    have notFeed : c ≠ '\n' := bne_iff_ne.mp (inside c (by simp))
    have others := ih (fun d member => inside d (List.mem_cons_of_mem c member))
    rw [List.cons_append,strip,if_neg notFeed,others]

theorem strip_blockComment {body : List Char} (after : List Char)
    (first : ¬ HoldsClosing (body ++ ['*'])) :
    strip .blockComment (body ++ '*' :: '/' :: after) = strip .code after := by
  induction body with
  | nil => rw [List.nil_append,strip]
  | cons c body ih =>
    have apart := closing_apart after first
    rw [List.cons_append,holdsClosing_cons,not_or] at first
    rw [List.cons_append,strip.eq_8 _ _ apart]
    exact ih first.2

theorem strip_openComment {body : List Char} (never : ¬ HoldsClosing body) :
    strip .blockComment body = ([],.blockComment) := by
  induction body with
  | nil => rfl
  | cons c body ih =>
    rw [holdsClosing_cons,not_or] at never
    have apart : ∀ rest, c = '*' → body = '/' :: rest → False := by
      intro rest star slash
      exact never.1 ⟨star,by rw [slash]; rfl⟩
    rw [strip.eq_8 _ _ apart]
    exact ih never.2

theorem plain_of_wordPart {c : Char} (part : isWordPart c = true) : IsPlain c := by
  refine ⟨notBlank_inside rfl part,?_,?_⟩
  · intro same
    rw [same] at part
    cases part
  · intro same
    rw [same] at part
    cases part

theorem plain_of_ofChar {c : Char} {o : Operator} (found : Operator.ofChar? c = some o)
    (notSlash : c ≠ '/') : IsPlain c := by
  obtain ⟨notBlank,_,_,notQuote,_⟩ := operator_apart found
  exact ⟨notBlank,notQuote,notSlash⟩

theorem plain_of_number {whole fraction : List Char} (digits : ∀ c ∈ whole, c.isDigit = true)
    (places : ∀ c ∈ fraction, c.isDigit = true) :
    ∀ c ∈ Segment.numberText whole fraction, IsPlain c := by
  have plain {c : Char} (digit : c.isDigit = true) := plain_of_wordPart (wordPart_of_digit digit)
  intro c member
  rcases mem_numberText member with front | point | behind
  · exact plain (digits c front)
  · exact point ▸ plain_of_ofChar (o := .dot) rfl (by decide)
  · exact plain (places c behind)

theorem plain_of_operator {o : Operator} (notSlash : o ≠ .slash) : ∀ c ∈ o.text, IsPlain c := by
  have equal : IsPlain '=' := plain_of_ofChar (o := .equal) rfl (by decide)
  rcases operator_spelled o with ⟨c,spelled,found⟩ | ⟨c,shorter,spelled,apart,found,_⟩
  · have apart : c ≠ '/' := fun slash => notSlash ((operator_apart found).2.2.2.2 slash)
    rw [spelled]
    exact List.forall_mem_singleton.mpr (plain_of_ofChar found apart)
  · rw [spelled]
    exact List.forall_mem_cons.mpr ⟨plain_of_ofChar found apart,List.forall_mem_singleton.mpr equal⟩

def Segment.kept (piece : Segment) : List Char :=
  match piece with
  | .blank _ => []
  | .lineComment _ => []
  | .blockComment _ => []
  | .openComment _ => []
  | _ => piece.text

-- The filter keeps its part of the piece and goes on in code, and it ends in a string
-- or a block comment only if the piece or something behind it is left open.
structure StripsTo (piece : Segment) (after : List Char) : Prop where
  kept : (strip .code (piece.text ++ after)).1 = piece.kept ++ (strip .code after).1
  string : (strip .code (piece.text ++ after)).2 = .string ↔
    (∃ body, piece = .openString body) ∨ (strip .code after).2 = .string
  comment : (strip .code (piece.text ++ after)).2 = .blockComment ↔
    (∃ body, piece = .openComment body) ∨ (strip .code after).2 = .blockComment

theorem stripsTo_of_keep {piece : Segment} {after : List Char}
    (whole : strip .code (piece.text ++ after) = keep piece.kept (strip .code after))
    (notString : ∀ body, piece ≠ .openString body) (notComment : ∀ body, piece ≠ .openComment body) :
    StripsTo piece after := by
  refine ⟨by rw [whole]; rfl,?_,?_⟩
  · rw [whole]
    simp only [keep,notString,exists_false,false_or]
  · rw [whole]
    simp only [keep,notComment,exists_false,false_or]

theorem lineComment_strips {body after : List Char} (inside : ∀ c ∈ body, (c != '\n') = true)
    (stops : Stops (· != '\n') after) : StripsTo (.lineComment body) after := by
  have whole : strip .code ((Segment.lineComment body).text ++ after) = strip .lineComment after :=
    strip_lineComment after inside
  cases after with
  | nil =>
    rw [List.append_nil] at whole
    refine ⟨?_,?_,?_⟩ <;> rw [List.append_nil,whole] <;> simp [strip,Segment.kept]
  | cons c rest =>
    have feed : c = '\n' := by simpa using stops_cons.mp stops
    subst feed
    have behind : strip .lineComment ('\n' :: rest) = strip .code ('\n' :: rest) := by
      rw [strip_blank rest rfl,strip,if_pos rfl]
    exact stripsTo_of_keep (whole.trans behind) (by simp) (by simp)

theorem strips_piece {piece : Segment} {after : List Char} (stands : piece.StandsBefore after) :
    StripsTo piece after := by
  cases piece with
  | blank c => exact stripsTo_of_keep (strip_blank after stands) (by simp) (by simp)
  | lineComment body => exact lineComment_strips stands.1 stands.2
  | blockComment body =>
    have whole := strip_blockComment after stands
    refine stripsTo_of_keep ?_ (by simp) (by simp)
    rw [Segment.text,List.append_assoc]
    exact whole
  | openComment body =>
    obtain ⟨never,rfl⟩ := stands
    have whole : strip .code (Segment.openComment body).text = ([],.blockComment) :=
      strip_openComment never
    refine ⟨?_,?_,?_⟩ <;> rw [List.append_nil,whole] <;> simp [strip,Segment.kept]
  | string body =>
    have whole := strip_string after stands
    refine stripsTo_of_keep ?_ (by simp) (by simp)
    rw [Segment.text,List.append_assoc,List.cons_append,strip_quote]
    exact congrArg (keep ['"']) whole
  | openString body =>
    obtain ⟨inside,rfl⟩ := stands
    have whole : strip .code (Segment.openString body).text = ('"' :: body,.string) := by
      rw [Segment.text,strip_quote,strip_openString inside]
      rfl
    refine ⟨?_,?_,?_⟩ <;> rw [List.append_nil,whole] <;> simp [strip,Segment.kept,Segment.text]
  | number whole fraction =>
    have plain := plain_of_number stands.1.2.1 stands.1.2.2
    exact stripsTo_of_keep (strip_plain after plain) (by simp) (by simp)
  | word letters =>
    obtain ⟨⟨c,rest,rfl,start,inside⟩,_⟩ := stands
    have plain : ∀ d ∈ c :: rest, IsPlain d :=
      List.forall_mem_cons.mpr ⟨plain_of_wordPart (wordPart_of_letter start),
        fun d member => plain_of_wordPart (inside d member)⟩
    exact stripsTo_of_keep (strip_plain after plain) (by simp) (by simp)
  | operator o =>
    by_cases slash : o = .slash
    · subst slash
      exact stripsTo_of_keep (strip_code (fun _ => stands.2 rfl) (by decide)) (by simp) (by simp)
    · exact stripsTo_of_keep (strip_plain after (plain_of_operator slash)) (by simp) (by simp)
  | stray c =>
    have plain : ∀ d ∈ [c], IsPlain d :=
      List.forall_mem_singleton.mpr ⟨stands.notBlank,stands.notQuote,stands.notSlash⟩
    exact stripsTo_of_keep (strip_plain after plain) (by simp) (by simp)

theorem strip_splits {source : List Char} {pieces : List Segment} (split : Splits source pieces) :
    (strip .code source).1 = pieces.flatMap Segment.kept ∧
      ((strip .code source).2 = .string ↔ ∃ body, .openString body ∈ pieces) ∧
      ((strip .code source).2 = .blockComment ↔ ∃ body, .openComment body ∈ pieces) := by
  induction split with
  | nil => simp [strip]
  | @cons piece after pieces stands tail ih =>
    obtain ⟨kept,string,comment⟩ := strips_piece stands
    refine ⟨by rw [kept,ih.1,List.flatMap_cons],?_,?_⟩
    · rw [string,ih.2.1]
      simp only [List.mem_cons,exists_or,eq_comm]
    · rw [comment,ih.2.2]
      simp only [List.mem_cons,exists_or,eq_comm]

end ScriptLexer
