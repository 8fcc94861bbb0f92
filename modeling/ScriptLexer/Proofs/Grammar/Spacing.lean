import ScriptLexer.Proofs.Grammar.Layout

namespace ScriptLexer

open Grammar

theorem not_glued_nil (s : Spaced) : ¬ Glued s [] := by
  intro glued
  obtain ⟨_,next,more,same,_⟩ := glued
  cases same

theorem not_glued_cons {s next : Spaced} {more : List Spaced} :
    ¬ Glued s (next :: more) ↔ (s.gap.text = [] → ¬ Collides s.lexeme.text next more) := by
  constructor
  · intro free tight collides
    exact free ⟨tight,next,more,rfl,collides⟩
  · intro free glued
    obtain ⟨tight,_,_,same,collides⟩ := glued
    obtain ⟨rfl,rfl⟩ := List.cons.inj same
    exact free tight collides

theorem free_iff_stops {p : Char → Bool} (blank : ∀ c, isBlank c = true → p c = false)
    {s : Spaced} {behind : List Spaced}
    (each : ∀ next more, Collides s.lexeme.text next more ↔ ¬ Stops p next.lexeme.text) :
    ¬ Glued s behind ↔ Stops p (s.gap.text ++ layout behind) := by
  rw [stops_behind blank]
  cases behind with
  | nil => simp [not_glued_nil]
  | cons next more => simp [not_glued_cons,each]

theorem word_free {s : Spaced} {behind : List Spaced} (spelled : s.lexeme.text ∈ word) :
    ¬ Glued s behind ↔ Stops isWordPart (s.gap.text ++ layout behind) := by
  refine free_iff_stops (blank_outside rfl) ?_
  intro next more
  rw [collides_word spelled,stops_wordPart next.lexeme.wellFormed,not_not]

theorem string_free {s : Spaced} (behind : List Spaced) (spelled : s.lexeme.text ∈ string) :
    ¬ Glued s behind := by
  intro glued
  obtain ⟨_,next,more,_,collides⟩ := glued
  exact collides_string spelled collides

theorem number_free {s : Spaced} {behind : List Spaced} (spelled : s.lexeme.text ∈ number) :
    ¬ Glued s behind ↔ Stops Char.isDigit (s.gap.text ++ layout behind) ∧
      (s.lexeme.text ∈ digits → ¬ PointFollows (s.gap.text ++ layout behind)) := by
  rw [stops_behind (blank_outside rfl),point_behind]
  cases behind with
  | nil => simp [not_glued_nil]
  | cons next more =>
    have digit := stops_digit next.lexeme.wellFormed
    rw [not_glued_cons,collides_number spelled]
    constructor
    · intro free
      refine ⟨?_,?_⟩
      · intro tight other member
        cases member
        exact digit.mpr fun number => free tight (.inl number)
      · intro all follows
        obtain ⟨tight,_,_,same,point⟩ := follows
        obtain ⟨rfl,rfl⟩ := List.cons.inj same
        exact free tight (.inr ⟨all,point⟩)
    · intro free tight collides
      rcases collides with number | ⟨all,point⟩
      · exact digit.mp (free.1 tight next rfl) number
      · exact free.2 all ⟨tight,next,more,rfl,point⟩

theorem operator_free {s : Spaced} {behind : List Spaced} {o : Operator} (spelled : s.lexeme.text = o.text) :
    ¬ Glued s behind ↔ (Segment.operator o).StandsBefore (s.gap.text ++ layout behind) := by
  rw [Segment.StandsBefore,stops_behind (blank_outside rfl),stops_behind (blank_outside rfl)]
  cases behind with
  | nil => simp [not_glued_nil]
  | cons next more =>
    have equal := stops_equal next.lexeme.wellFormed
    have slash := stops_slash next.lexeme.wellFormed
    rw [not_glued_cons,spelled,collides_operator]
    constructor
    · intro free
      refine ⟨?_,?_⟩
      · intro joins tight other member
        cases member
        exact equal.mpr fun same => free tight (.inl ⟨joins,same⟩)
      · intro same tight other member
        cases member
        exact slash.mpr fun opens => free tight (.inr ⟨same,opens⟩)
    · intro free tight collides
      rcases collides with ⟨joins,same⟩ | ⟨same,opens⟩
      · exact equal.mp (free.1 joins tight next rfl) same
      · exact slash.mp (free.2 same tight next rfl) opens

theorem piece_of_free {s : Spaced} {behind : List Spaced} (free : ¬ Glued s behind) :
    ∃ piece : Segment, piece.lexeme? = some s.lexeme.text ∧
      piece.StandsBefore (s.gap.text ++ layout behind) := by
  rcases mem_lexeme.mp s.lexeme.wellFormed with ((spelled | spelled) | spelled) | spelled
  · obtain ⟨o,same⟩ := operator_iff.mp spelled
    exact ⟨.operator o,congrArg some same.symm,(operator_free same).mp free⟩
  · exact ⟨.word s.lexeme.text,rfl,mem_word.mp spelled,(word_free spelled).mp free⟩
  · obtain ⟨whole,fraction,same,nonempty,all,places⟩ := mem_number.mp spelled
    obtain ⟨stops,point⟩ := (number_free spelled).mp free
    rw [same] at point
    refine ⟨.number whole fraction,congrArg some same.symm,⟨nonempty,all,places⟩,stops,?_⟩
    intro empty
    exact point ((digits_numberText nonempty all).mpr empty)
  · obtain ⟨body,same,inside⟩ := mem_string.mp spelled
    exact ⟨.string body,congrArg some same.symm,inside⟩

theorem free_of_piece {s : Spaced} {behind : List Spaced} {piece : Segment}
    (found : piece.lexeme? = some s.lexeme.text)
    (stands : piece.StandsBefore (s.gap.text ++ layout behind)) : ¬ Glued s behind := by
  have written := lexeme_text found
  cases piece with
  | string body => exact string_free behind (mem_string.mpr ⟨body,written.symm,stands⟩)
  | number whole fraction =>
    obtain ⟨⟨nonempty,all,places⟩,stops,point⟩ := stands
    have spelled := mem_number.mpr ⟨whole,fraction,written.symm,nonempty,all,places⟩
    refine (number_free spelled).mpr ⟨stops,?_⟩
    intro digits
    rw [← written] at digits
    exact point ((digits_numberText nonempty all).mp digits)
  | word letters => exact (word_free (mem_word.mpr (written ▸ stands.1))).mpr stands.2
  | operator o => exact (operator_free written.symm).mpr stands
  | _ => cases found

def NeedsGap (line : List Spaced) : Prop :=
  ∃ front s behind, line = front ++ s :: behind ∧ Glued s behind

theorem needsGap_nil : ¬ NeedsGap [] := by
  intro needs
  obtain ⟨front,s,behind,same,_⟩ := needs
  cases front <;> cases same

theorem needsGap_cons {s : Spaced} {behind : List Spaced} :
    NeedsGap (s :: behind) ↔ Glued s behind ∨ NeedsGap behind := by
  constructor
  · intro needs
    obtain ⟨front,other,more,same,glued⟩ := needs
    cases front with
    | nil =>
      obtain ⟨rfl,rfl⟩ := List.cons.inj same
      exact .inl glued
    | cons first front => exact .inr ⟨front,other,more,(List.cons.inj same).2,glued⟩
  · intro needs
    rcases needs with glued | ⟨front,other,more,same,glued⟩
    · exact ⟨[],s,behind,rfl,glued⟩
    · exact ⟨s :: front,other,more,congrArg (s :: ·) same,glued⟩

theorem splits_gap (gap : Gap) {after : List Char} {pieces : List Segment} (tail : Splits after pieces)
    (ordinary : ∀ piece ∈ pieces, piece.IsOrdinary) :
    ∃ more, Splits (gap.text ++ after) more ∧ (∀ piece ∈ more, piece.IsOrdinary) ∧
      more.filterMap Segment.lexeme? = pieces.filterMap Segment.lexeme? := by
  refine ⟨_,splits_blank gap.blank tail,?_,?_⟩
  · intro piece member
    rcases List.mem_append.mp member with blank | later
    · obtain ⟨c,_,rfl⟩ := List.mem_map.mp blank
      exact .inl ⟨c,rfl⟩
    · exact ordinary piece later
  · rw [List.filterMap_append,List.filterMap_map]
    have silent : gap.text.filterMap (Segment.lexeme? ∘ Segment.blank) = [] := by
      rw [List.filterMap_eq_nil_iff]
      intro c _
      rfl
    rw [silent,List.nil_append]

theorem splits_layout {line : List Spaced} (free : ¬ NeedsGap line) :
    ∃ pieces, Splits (layout line) pieces ∧ (∀ piece ∈ pieces, piece.IsOrdinary) ∧
      pieces.filterMap Segment.lexeme? = line.map fun s => s.lexeme.text := by
  induction line with
  | nil => exact ⟨[],.nil,by simp,rfl⟩
  | cons s behind ih =>
    rw [needsGap_cons,not_or] at free
    obtain ⟨pieces,tail,ordinary,lexemes⟩ := ih free.2
    obtain ⟨more,spaced,plain,same⟩ := splits_gap s.gap tail ordinary
    obtain ⟨piece,found,stands⟩ := piece_of_free free.1
    have split := Splits.cons stands spaced
    rw [lexeme_text found,← layout_cons] at split
    refine ⟨piece :: more,split,?_,?_⟩
    · intro other member
      rcases List.mem_cons.mp member with rfl | later
      · exact .inr (by rw [found]; rfl)
      · exact plain other later
    · rw [List.filterMap_cons,found,same,lexemes,List.map_cons]

theorem solid_layout (line : List Spaced) :
    solid (layout line) = solid (line.map fun s => s.lexeme.text).flatten := by
  induction line with
  | nil => rfl
  | cons s behind ih =>
    rw [layout_cons,List.map_cons,List.flatten_cons,solid_append,solid_append,solid_append,
      solid_blank s.gap.blank,ih,Nat.zero_add]

theorem gap_nil_of_lexeme (gap : Gap) (lexeme : Lexeme) {after back : List Char}
    (written : lexeme.text ++ after = gap.text ++ back) : gap.text = [] := by
  cases space : gap.text with
  | nil => rfl
  | cons d rest =>
    obtain ⟨e,letters,same,_⟩ := lexeme_heads lexeme.wellFormed
    have notBlank := lexeme_notBlank (same ▸ lexeme.wellFormed)
    rw [space,same] at written
    rw [(List.cons.inj written).1,gap.blank d (space ▸ List.mem_cons_self)] at notBlank
    cases notBlank

theorem gap_of_blank (gap : Gap) (line : List Spaced) {c : Char} {after : List Char}
    (blank : isBlank c = true) (written : c :: after = gap.text ++ layout line) :
    ∃ rest : Gap, after = rest.text ++ layout line := by
  cases space : gap.text with
  | cons d rest =>
    have inside : ∀ e ∈ rest, isBlank e = true :=
      fun e member => gap.blank e (space ▸ List.mem_cons_of_mem d member)
    rw [space] at written
    exact ⟨⟨rest,inside⟩,(List.cons.inj written).2⟩
  | nil =>
    rw [space,List.nil_append] at written
    cases line with
    | nil => cases written
    | cons s behind =>
      obtain ⟨d,rest,same,_⟩ := lexeme_heads s.lexeme.wellFormed
      have notBlank := lexeme_notBlank (same ▸ s.lexeme.wellFormed)
      rw [layout_cons,same] at written
      rw [← (List.cons.inj written).1,blank] at notBlank
      cases notBlank

theorem free_of_splits {source : List Char} {pieces : List Segment} (split : Splits source pieces)
    (ordinary : ∀ piece ∈ pieces, piece.IsOrdinary) (lead : Gap) (line : List Spaced)
    (written : source = lead.text ++ layout line)
    (lexemes : pieces.filterMap Segment.lexeme? = line.map fun s => s.lexeme.text) : ¬ NeedsGap line := by
  induction split generalizing lead line with
  | nil =>
    cases line with
    | nil => exact needsGap_nil
    | cons s behind => cases lexemes
  | @cons piece after pieces stands tail ih =>
    have later : ∀ other ∈ pieces, other.IsOrdinary :=
      fun other member => ordinary other (List.mem_cons_of_mem piece member)
    rcases ordinary piece List.mem_cons_self with ⟨c,rfl⟩ | token
    · obtain ⟨rest,behind⟩ := gap_of_blank lead line stands written
      exact ih later rest line behind lexemes
    · obtain ⟨text,found⟩ := Option.isSome_iff_exists.mp token
      rw [List.filterMap_cons,found] at lexemes
      cases line with
      | nil => cases lexemes
      | cons s behind =>
        rw [List.map_cons] at lexemes
        obtain ⟨rfl,others⟩ := List.cons.inj lexemes
        rw [lexeme_text found] at written
        rw [gap_nil_of_lexeme lead s.lexeme written,List.nil_append,layout_cons] at written
        obtain rfl := List.append_cancel_left written
        rw [needsGap_cons,not_or]
        exact ⟨free_of_piece found stands,ih later s.gap behind rfl others⟩

-- A program written from its lexemes scans back to them, without an error, exactly
-- where no lexeme is glued to the next.
theorem scan_layout_iff (lead : Gap) (line : List Spaced) :
    let result := scan (lead.text ++ layout line)
    (result.errors = [] ∧ ∃ tokens, result.tokens = tokens ++ [result.endToken] ∧
      tokens.map Token.lexeme = line.map fun s => s.lexeme.text) ↔ ¬ NeedsGap line := by
  intro result
  have lexemes := tokens_lexemes (lead.text ++ layout line)
  constructor
  · intro back
    obtain ⟨_,tokens,whole,same⟩ := back
    rw [show (scan (lead.text ++ layout line)).tokens = tokens ++ [result.endToken] from whole,
      List.map_append,same] at lexemes
    have found := (List.append_inj' lexemes rfl).1.symm
    have split := segments_splits (lead.text ++ layout line)
    refine free_of_splits split ((ordinary_of_solid split).2 ?_) lead line rfl found
    rw [found,solid_append,solid_blank lead.blank,solid_layout,Nat.zero_add]
  · intro free
    obtain ⟨pieces,tail,plain,found⟩ := splits_layout free
    obtain ⟨more,split,ordinary,same⟩ := splits_gap lead tail plain
    rw [splits_exact] at split
    rw [← split] at ordinary same
    refine ⟨errors_nil_of_ordinary ordinary,result.events.filterMap Event.token?,rfl,?_⟩
    rw [same,found,Scan.tokens,List.map_append] at lexemes
    exact List.append_cancel_right lexemes

-- The gap between the equal signs is needed, the ones that are left out beside it are not.
theorem scan_layout_equal :
    ∃ (name sign value : Lexeme) (narrow wide : Gap),
      name.text = ['x'] ∧ sign.text = ['='] ∧ value.text = ['1'] ∧ narrow.text = [] ∧ wide.text = [' '] ∧
      let spaced := scan ['x','=',' ','=','1']
      let glued := scan ['x','=','=','1']
      (spaced.errors = [] ∧ ∃ tokens, spaced.tokens = tokens ++ [spaced.endToken] ∧
        tokens.map Token.lexeme = [['x'],['='],['='],['1']]) ∧
      NeedsGap [⟨name,narrow⟩,⟨sign,narrow⟩,⟨sign,narrow⟩,⟨value,narrow⟩] ∧
      ¬ (glued.errors = [] ∧ ∃ tokens, glued.tokens = tokens ++ [glued.endToken] ∧
        tokens.map Token.lexeme = [['x'],['='],['='],['1']]) := by
  have word : ['x'] ∈ Grammar.word := mem_word.mpr ⟨'x',[],rfl,rfl,by simp⟩
  have number : ['1'] ∈ Grammar.number := mem_number.mpr ⟨['1'],[],rfl,by simp,by simp,by simp⟩
  have operator : ['='] ∈ Grammar.operator := operator_iff.mpr ⟨.equal,rfl⟩
  let name : Lexeme := ⟨['x'],mem_lexeme.mpr (.inl (.inl (.inr word)))⟩
  let sign : Lexeme := ⟨['='],mem_lexeme.mpr (.inl (.inl (.inl operator)))⟩
  let value : Lexeme := ⟨['1'],mem_lexeme.mpr (.inl (.inr number))⟩
  let narrow : Gap := ⟨[],by simp⟩
  let wide : Gap := ⟨[' '],by simp [isBlank]⟩
  have beside : ¬ Collides name.text ⟨sign,wide⟩ [⟨sign,narrow⟩,⟨value,narrow⟩] := by
    rw [collides_word word]
    rintro (spelled | spelled)
    · cases word_head spelled
    · cases number_head spelled
  have before : ¬ Collides sign.text ⟨value,narrow⟩ [] := by
    rw [show sign.text = Operator.equal.text from rfl,collides_operator]
    simp [value]
  have free : ¬ NeedsGap [⟨name,narrow⟩,⟨sign,wide⟩,⟨sign,narrow⟩,⟨value,narrow⟩] := by
    simp only [needsGap_cons,not_or]
    refine ⟨not_glued_cons.mpr fun _ => beside,not_glued_cons.mpr ?_,not_glued_cons.mpr fun _ => before,
      not_glued_nil _,needsGap_nil⟩
    intro empty
    cases empty
  have needs : NeedsGap [⟨name,narrow⟩,⟨sign,narrow⟩,⟨sign,narrow⟩,⟨value,narrow⟩] := by
    refine ⟨[⟨name,narrow⟩],⟨sign,narrow⟩,_,rfl,rfl,_,_,rfl,?_⟩
    exact .inr (.inr (.inr (.inl ⟨by simp [sign],.inl rfl⟩)))
  refine ⟨name,sign,value,narrow,wide,rfl,rfl,rfl,rfl,rfl,?_,needs,?_⟩
  · exact (scan_layout_iff narrow [⟨name,narrow⟩,⟨sign,wide⟩,⟨sign,narrow⟩,⟨value,narrow⟩]).mpr free
  · intro back
    exact (scan_layout_iff narrow [⟨name,narrow⟩,⟨sign,narrow⟩,⟨sign,narrow⟩,⟨value,narrow⟩]).mp back needs

end ScriptLexer
