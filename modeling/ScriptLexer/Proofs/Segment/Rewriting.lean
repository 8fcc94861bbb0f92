import Mathlib.Data.List.Basic
import ScriptLexer.Proofs.Segment.Outlook

-- Texts written in other characters: returns may go before line feeds, and the characters
-- that begin no segment may change among themselves. A segment ends in the new text where
-- it ended in the old one.
namespace ScriptLexer

def marks : List Char :=
  ['_','"',' ','\t','\r','\n','(',')','{','}',',','.','-','+',';','*','/','!','=','<','>']

def InAlphabet (c : Char) : Prop := c.isAlphanum = true ∨ c ∈ marks

instance (c : Char) : Decidable (InAlphabet c) := inferInstanceAs (Decidable (_ ∨ _))

theorem mark_begins {c : Char} (mark : c ∈ marks) :
    isBlank c = true ∨ isWordStart c = true ∨ c = '"' ∨ Operator.ofChar? c ≠ none := by
  have all : marks.all (fun c => isBlank c || isWordStart c || c == '"' || (Operator.ofChar? c).isSome) = true := by
    decide
  simpa [Option.isSome_iff_ne_none,or_assoc] using List.all_eq_true.mp all c mark

theorem blank_mark {c : Char} (blank : isBlank c = true) : c ∈ marks := by
  have all : [' ','\r','\t','\n'].all (marks.contains ·) = true := by decide
  simpa using List.all_eq_true.mp all c (isBlank_iff.mp blank)

theorem operator_mark {c : Char} (o : Operator) (spelled : c ∈ o.text) : c ∈ marks := by
  have all : o.text.all (marks.contains ·) = true := by cases o <;> decide
  simpa using List.all_eq_true.mp all c spelled

theorem wordPart_inAlphabet {c : Char} (part : isWordPart c = true) : InAlphabet c := by
  rcases Bool.or_eq_true_iff.mp part with letter | line
  · exact .inl letter
  · rw [eq_of_beq line]
    decide

theorem isStray_iff {c : Char} : IsStray c ↔ ¬ InAlphabet c := by
  constructor
  · intro stray member
    rcases member with letter | mark
    · have notLetter := stray.notWordPart
      rw [isWordPart,letter] at notLetter
      cases notLetter
    · rcases mark_begins mark with blank | start | quote | operator
      · rw [stray.notBlank] at blank
        cases blank
      · rw [stray.notLetter] at start
        cases start
      · exact stray.notQuote quote
      · exact operator stray.notOperator
  · intro outside
    refine ⟨?_,?_,?_,?_,?_⟩
    · exact eq_false_of_ne_true fun blank => outside (.inr (blank_mark blank))
    · exact eq_false_of_ne_true fun digit => outside (wordPart_inAlphabet (wordPart_of_digit digit))
    · exact eq_false_of_ne_true fun letter => outside (wordPart_inAlphabet (wordPart_of_letter letter))
    · rintro rfl
      exact outside (by decide)
    · cases found : Operator.ofChar? c with
      | none => rfl
      | some o =>
        have spelled : c ∈ o.text := by
          rw [Operator.text_of_ofChar found]
          exact List.mem_cons_self
        exact absurd (.inr (operator_mark o spelled)) outside

structure Rewriting where
  returns : Nat
  anew : Char → Char
  keeps : ∀ c, ¬ IsStray c → anew c = c
  strays : ∀ c, IsStray c → IsStray (anew c)

theorem notStray_operator {c : Char} {o : Operator} (found : Operator.ofChar? c = some o) : ¬ IsStray c :=
  fun stray => stray.ne_operator found rfl

theorem notStray_wordPart {c : Char} (part : isWordPart c = true) : ¬ IsStray c := by
  intro stray
  rw [stray.notWordPart] at part
  cases part

theorem notStray_quote : ¬ IsStray '"' := fun stray => stray.notQuote rfl

namespace Rewriting

variable (r : Rewriting) {c d : Char} {text body after : List Char}

def feed : List Char := List.replicate r.returns '\r' ++ ['\n']

def writeChar (c : Char) : List Char := if c = '\n' then r.feed else [r.anew c]

def write (text : List Char) : List Char := text.flatMap r.writeChar

theorem write_nil : r.write [] = [] := rfl

theorem write_cons (c : Char) (text : List Char) : r.write (c :: text) = r.writeChar c ++ r.write text :=
  List.flatMap_cons

theorem write_append (front back : List Char) : r.write (front ++ back) = r.write front ++ r.write back :=
  List.flatMap_append

theorem write_feed : r.writeChar '\n' = r.feed := rfl

theorem write_other (notFeed : c ≠ '\n') : r.writeChar c = [r.anew c] := if_neg notFeed

theorem feed_blank (member : c ∈ r.feed) : c = '\r' ∨ c = '\n' := by
  rcases List.mem_append.mp member with front | last
  · exact .inl (List.eq_of_mem_replicate front)
  · exact .inr (List.mem_singleton.mp last)

theorem feed_cons : ∃ c rest, r.feed = c :: rest ∧ (c = '\r' ∨ c = '\n') := by
  cases written : r.feed with
  | nil => exact absurd written (List.concat_ne_nil _ _)
  | cons c rest => exact ⟨c,rest,rfl,r.feed_blank (by rw [written]; exact List.mem_cons_self)⟩

theorem writeChar_source (notBlank : isBlank d = false) (notStray : ¬ IsStray d)
    (member : d ∈ r.writeChar c) : c = d := by
  by_cases feed : c = '\n'
  · rw [feed,write_feed] at member
    rcases r.feed_blank member with rfl | rfl <;> cases notBlank
  · rw [r.write_other feed,List.mem_singleton] at member
    by_cases stray : IsStray c
    · exact absurd (member ▸ r.strays c stray) notStray
    · rw [member,r.keeps c stray]

theorem anew_notFeed (notFeed : c ≠ '\n') : r.anew c ≠ '\n' := by
  by_cases stray : IsStray c
  · exact (r.strays c stray).notFeed
  · rwa [r.keeps c stray]

theorem writeChar_kept (notStray : ¬ IsStray c) (notFeed : c ≠ '\n') : r.writeChar c = [c] := by
  rw [r.write_other notFeed,r.keeps c notStray]

theorem write_kept (kept : ∀ c ∈ text, ¬ IsStray c ∧ c ≠ '\n') : r.write text = text := by
  have each : r.write text = text.flatMap fun c => [c] :=
    List.flatMap_congr fun c member => r.writeChar_kept (kept c member).1 (kept c member).2
  rw [each]
  exact List.flatMap_singleton' text

theorem lineFeeds_writeChar (c : Char) : lineFeeds (r.writeChar c) = lineFeeds [c] := by
  by_cases feed : c = '\n'
  · have feedless : lineFeeds (List.replicate r.returns '\r') = 0 := List.count_eq_zero.mpr fun member => by
      cases List.eq_of_mem_replicate member
    rw [feed,write_feed,Rewriting.feed,lineFeeds_append,feedless,Nat.zero_add]
  · rw [r.write_other feed,lineFeeds_plain feed,lineFeeds_plain (r.anew_notFeed feed)]

theorem lineFeeds_write (text : List Char) : lineFeeds (r.write text) = lineFeeds text := by
  induction text with
  | nil => rfl
  | cons c text ih =>
    rw [write_cons,lineFeeds_append,lineFeeds_writeChar,ih,← lineFeeds_append]
    rfl

theorem stops_write {p : Char → Bool} (plain : [' ','\r','\t','\n'].any p = false)
    (strays : ∀ c, IsStray c → p c = false) (stops : Stops p text) : Stops p (r.write text) := by
  cases text with
  | nil => exact stops_nil p
  | cons c text =>
    rw [write_cons]
    by_cases feed : c = '\n'
    · obtain ⟨d,rest,written,blank⟩ := r.feed_cons
      rw [feed,write_feed,written,List.cons_append,stops_cons]
      apply blank_outside plain
      rcases blank with rfl | rfl <;> rfl
    · rw [r.write_other feed,List.singleton_append,stops_cons]
      by_cases stray : IsStray c
      · exact strays _ (r.strays c stray)
      · rw [r.keeps c stray]
        exact stops_cons.mp stops

theorem head_write (notBlank : isBlank d = false) (notStray : ¬ IsStray d)
    (head : (r.write text).head? = some d) : ∃ rest, text = d :: rest ∧ r.write text = d :: r.write rest := by
  cases text with
  | nil => cases head
  | cons c text =>
    have member : d ∈ r.writeChar c := by
      rw [write_cons] at head
      cases written : r.writeChar c with
      | nil =>
        unfold writeChar at written
        split at written
        · exact absurd written (List.concat_ne_nil _ _)
        · cases written
      | cons e rest =>
        rw [written] at head
        cases head
        exact List.mem_cons_self
    obtain rfl := r.writeChar_source notBlank notStray member
    have notFeed : c ≠ '\n' := by
      intro feed
      rw [feed] at notBlank
      cases notBlank
    exact ⟨text,rfl,by rw [write_cons,r.writeChar_kept notStray notFeed,List.singleton_append]⟩

theorem point_write (follows : PointFollows (r.write text)) : PointFollows text := by
  obtain ⟨d,rest,written,digit⟩ := follows
  have point : ¬ IsStray '.' := notStray_operator (o := .dot) rfl
  obtain ⟨behind,rfl,same⟩ := r.head_write rfl point (by rw [written]; rfl)
  have tail : r.write behind = d :: rest := (List.cons.inj (same.symm.trans written)).2
  obtain ⟨last,rfl,_⟩ := r.head_write (isBlank_of_digit digit) (notStray_wordPart (wordPart_of_digit digit)) (by rw [tail]; rfl)
  exact ⟨d,last,rfl,digit⟩

theorem holdsClosing_skip {front : List Char} (apart : ∀ c ∈ front, c ≠ '*')
    (holds : HoldsClosing (front ++ text)) : HoldsClosing text := by
  induction front with
  | nil => exact holds
  | cons c front ih =>
    rw [List.cons_append,holdsClosing_cons] at holds
    rcases holds with ⟨star,_⟩ | later
    · exact absurd star (apart c List.mem_cons_self)
    · exact ih (fun d member => apart d (List.mem_cons_of_mem c member)) later

theorem holdsClosing_write (holds : HoldsClosing (r.write text)) : HoldsClosing text := by
  have star : ¬ IsStray '*' := notStray_operator (o := .star) rfl
  have slash : ¬ IsStray '/' := notStray_operator (o := .slash) rfl
  induction text with
  | nil => exact holds
  | cons c text ih =>
    by_cases opens : c = '*'
    · subst opens
      rw [write_cons,r.writeChar_kept star (by decide),List.singleton_append,holdsClosing_cons] at holds
      rcases holds with ⟨_,closes⟩ | later
      · obtain ⟨rest,rfl,_⟩ := r.head_write rfl slash closes
        exact holdsClosing_cons.mpr (.inl ⟨rfl,rfl⟩)
      · exact holdsClosing_cons.mpr (.inr (ih later))
    · have apart : ∀ d ∈ r.writeChar c, d ≠ '*' := by
        intro d member same
        rw [same] at member
        exact opens (r.writeChar_source rfl star member)
      exact holdsClosing_cons.mpr (.inr (ih (holdsClosing_skip apart holds)))

theorem write_notQuote (inside : ∀ c ∈ text, (c != '"') = true) : ∀ d ∈ r.write text, (d != '"') = true := by
  intro d member
  rw [bne_iff_ne]
  intro quote
  obtain ⟨c,present,here⟩ := List.mem_flatMap.mp member
  rw [quote] at here
  have same := r.writeChar_source rfl notStray_quote here
  exact bne_iff_ne.mp (inside c present) same

theorem write_notFeed (inside : ∀ c ∈ text, (c != '\n') = true) : ∀ d ∈ r.write text, (d != '\n') = true := by
  intro d member
  obtain ⟨c,present,here⟩ := List.mem_flatMap.mp member
  have notFeed := bne_iff_ne.mp (inside c present)
  rw [r.write_other notFeed,List.mem_singleton] at here
  rw [here,bne_iff_ne]
  exact r.anew_notFeed notFeed

end Rewriting

-- A blank is left as it is: only a line feed is written in more than one character, and
-- then in blanks.
def Segment.rewritten (r : Rewriting) : Segment → Segment
  | lineComment body => lineComment (r.write body)
  | blockComment body => blockComment (r.write body)
  | openComment body => openComment (r.write body)
  | string body => string (r.write body)
  | openString body => openString (r.write body)
  | stray c => stray (r.anew c)
  | piece => piece

namespace Rewriting

variable (r : Rewriting) {piece : Segment} {after : List Char}

theorem write_slash : r.writeChar '/' = ['/'] := r.writeChar_kept (notStray_operator (o := .slash) rfl) (by decide)

theorem write_star : r.writeChar '*' = ['*'] := r.writeChar_kept (notStray_operator (o := .star) rfl) (by decide)

theorem write_quote : r.writeChar '"' = ['"'] := r.writeChar_kept notStray_quote (by decide)

theorem kept_wordPart {c : Char} (part : isWordPart c = true) : ¬ IsStray c ∧ c ≠ '\n' := by
  refine ⟨notStray_wordPart part,?_⟩
  rintro rfl
  cases part

theorem kept_operator {c : Char} {o : Operator} (found : Operator.ofChar? c = some o) :
    ¬ IsStray c ∧ c ≠ '\n' := by
  refine ⟨notStray_operator found,?_⟩
  rintro rfl
  cases found

theorem kept_word {letters : List Char} (spelled : IsWord letters) : ∀ c ∈ letters, ¬ IsStray c ∧ c ≠ '\n' := by
  obtain ⟨d,rest,rfl,start,inside⟩ := spelled
  intro c member
  rcases List.mem_cons.mp member with rfl | later
  · exact kept_wordPart (wordPart_of_letter start)
  · exact kept_wordPart (inside c later)

theorem kept_number {whole fraction : List Char} (digits : ∀ c ∈ whole, c.isDigit = true)
    (places : ∀ c ∈ fraction, c.isDigit = true) :
    ∀ c ∈ Segment.numberText whole fraction, ¬ IsStray c ∧ c ≠ '\n' := by
  intro c member
  rcases mem_numberText member with front | point | behind
  · exact kept_wordPart (wordPart_of_digit (digits c front))
  · exact point ▸ kept_operator (o := .dot) rfl
  · exact kept_wordPart (wordPart_of_digit (places c behind))

theorem rewritten_text (stands : piece.StandsBefore after) (notFeed : piece ≠ .blank '\n') :
    (piece.rewritten r).text = r.write piece.text := by
  cases piece with
  | blank c =>
    have plain : ¬ IsStray c := by
      intro stray
      have blank : isBlank c = true := stands
      rw [stray.notBlank] at blank
      cases blank
    exact (r.write_kept (List.forall_mem_singleton.mpr ⟨plain,fun feed => notFeed (feed ▸ rfl)⟩)).symm
  | lineComment body | openComment body | openString body =>
    simp only [Segment.rewritten,Segment.text,write_cons,write_slash,write_star,write_quote,List.singleton_append]
  | blockComment body | string body =>
    simp only [Segment.rewritten,Segment.text,write_cons,write_append,write_nil,write_slash,write_star,write_quote,
      List.nil_append,List.cons_append,List.append_nil]
  | number whole fraction => exact (r.write_kept (kept_number stands.1.2.1 stands.1.2.2)).symm
  | word letters => exact (r.write_kept (kept_word stands.1)).symm
  | operator o =>
    refine (r.write_kept fun c member => ?_).symm
    obtain ⟨single,found⟩ := mem_operator member
    exact kept_operator found
  | stray c =>
    have stray : IsStray c := stands
    simp only [Segment.rewritten,Segment.text,write_cons,write_nil,r.write_other stray.notFeed,List.append_nil]

-- A line comment takes in the returns before the line feed that ends it: it alone may
-- end elsewhere.
theorem rewritten_stands (stands : piece.StandsBefore after) (notLine : ∀ body, piece ≠ .lineComment body) :
    (piece.rewritten r).StandsBefore (r.write after) := by
  have ends (p : Char → Bool) (member : p ∈ lookahead) (ended : p '\r' = false) (stops : Stops p after) :
      Stops p (r.write after) :=
    r.stops_write (lookahead_return member ended).1 (lookahead_return member ended).2 stops
  cases piece with
  | blank c => exact stands
  | lineComment body => exact absurd rfl (notLine body)
  | blockComment body =>
    intro closes
    have whole : r.write (body ++ ['*']) = r.write body ++ ['*'] := by
      rw [write_append,write_cons,write_star,write_nil,List.append_nil]
    exact stands (r.holdsClosing_write (whole ▸ closes))
  | openComment body =>
    obtain ⟨never,rfl⟩ := stands
    exact ⟨fun closes => never (r.holdsClosing_write closes),r.write_nil⟩
  | string body => exact r.write_notQuote stands
  | openString body =>
    obtain ⟨inside,rfl⟩ := stands
    exact ⟨r.write_notQuote inside,r.write_nil⟩
  | number whole fraction => exact stands_return stands rfl notLine ends r.point_write
  | word letters => exact stands_return stands rfl notLine ends r.point_write
  | operator o => exact stands_return stands rfl notLine ends r.point_write
  | stray c => exact r.strays c stands

end Rewriting

end ScriptLexer
