import ScriptLexer.Proofs.Scan.Returns
import ScriptLexer.Proofs.Segment.Rewriting
import ScriptLexer.Proofs.Text.Slice

namespace ScriptLexer

def Literal.rewritten (write : List Char → List Char) : Literal → Literal
  | text characters => text (write characters)
  | number value => number value

def Place.shifted (shift : Nat → Nat) (place : Place) : Place := ⟨place.line,shift place.offset⟩

def Position.rewritten (shift : Nat → Nat) (position : Position) : Position :=
  ⟨position.line,⟨shift position.span.start,shift position.span.stop⟩⟩

def Token.rewritten (write : List Char → List Char) (shift : Nat → Nat) (token : Token) : Token :=
  ⟨token.kind,write token.lexeme,token.literal.map (Literal.rewritten write),token.position.rewritten shift⟩

def LexError.Cause.rewritten (anew : Char → Char) : LexError.Cause → LexError.Cause
  | unexpectedCharacter c => unexpectedCharacter (anew c)
  | unterminatedString => unterminatedString

def LexError.rewritten (anew : Char → Char) (shift : Nat → Nat) (error : LexError) : LexError :=
  ⟨error.cause.rewritten anew,error.position.rewritten shift⟩

namespace Rewriting

variable (r : Rewriting) (shift : Nat → Nat)

def event : Event → Event
  | .token t => .token (t.rewritten r.write shift)
  | .error e => .error (e.rewritten r.anew shift)
  | .openComment line => .openComment line

theorem feed_returns : IsReturns (List.replicate r.returns '\r') := fun _ member => List.eq_of_mem_replicate member

theorem events_piece {piece : Segment} {after : List Char} (stands : piece.StandsBefore after) (place : Place) :
    eventsFrom place (segments (r.write piece.text ++ r.write after)) =
      ((piece.rewritten r).event? place).toList ++
        eventsFrom (place.after (r.write piece.text)) (segments (r.write after)) := by
  have goes (text : (piece.rewritten r).text = r.write piece.text)
      (stays : (piece.rewritten r).StandsBefore (r.write after)) :
      eventsFrom place (segments (r.write piece.text ++ r.write after)) =
        ((piece.rewritten r).event? place).toList ++
          eventsFrom (place.after (r.write piece.text)) (segments (r.write after)) := by
    rw [← text,segments_stands stays,eventsFrom_cons]
  by_cases feed : piece = .blank '\n'
  · subst feed
    refine events_blank ?_ place _
    intro c member
    have same : r.write ['\n'] = r.feed := List.append_nil _
    rcases r.feed_blank (same ▸ member) with rfl | rfl <;> rfl
  · have text := r.rewritten_text stands feed
    by_cases line : ∃ body, piece = .lineComment body
    · obtain ⟨body,rfl⟩ := line
      cases after with
      | nil => exact goes text ⟨r.write_notFeed stands.1,stops_nil _⟩
      | cons c rest =>
        have ends : c = '\n' := by simpa using stops_cons.mp stands.2
        subst ends
        have stops : Stops (· != '\n') ('\n' :: r.write rest) := stops_cons.mpr rfl
        have taken := events_lineComment r.feed_returns (r.write_notFeed stands.1) stops place
        have behind : r.write ('\n' :: rest) = List.replicate r.returns '\r' ++ '\n' :: r.write rest :=
          List.append_assoc _ ['\n'] _
        rw [← text,behind]
        exact taken
    · exact goes text (r.rewritten_stands stands fun body same => line ⟨body,same⟩)

theorem event_rewritten {piece : Segment} {after : List Char} (stands : piece.StandsBefore after) {place : Place}
    (reached : (place.shifted shift).after (r.write piece.text) = (place.after piece.text).shifted shift) :
    (piece.rewritten r).event? (place.shifted shift) = (piece.event? place).map (r.event shift) := by
  by_cases feed : piece = .blank '\n'
  · subst feed
    rfl
  · have text := r.rewritten_text stands feed
    unfold Segment.event?
    simp only [text,reached]
    cases piece <;> rfl

-- Where an offset is moved to the length of what was written up to there, a text is told
-- of in its new form as it was in the old one.
theorem events_write {rest : List Char} {pieces : List Segment} (split : Splits rest pieces)
    (front : List Char) (moved : ∀ before after, before ++ after = front ++ rest →
      shift (byteLength before) = byteLength (r.write before)) :
    eventsFrom (Place.start.after (r.write front)) (segments (r.write rest)) =
      (eventsFrom (Place.start.after front) pieces).map (r.event shift) := by
  have placed (before after : List Char) (whole : before ++ after = front ++ rest) :
      Place.start.after (r.write before) = (Place.start.after before).shifted shift := by
    rw [start_after,start_after,lineFeeds_write,Place.shifted,moved before after whole]
  induction split generalizing front with
  | nil =>
    rw [write_nil,segments_nil,eventsFrom_nil,eventsFrom_nil,List.map_nil]
  | @cons piece after pieces stands tail ih =>
    have whole : front ++ piece.text ++ after = front ++ (piece.text ++ after) := List.append_assoc _ _ _
    have here := placed front _ rfl
    have reached := placed (front ++ piece.text) after whole
    have later := ih (front ++ piece.text) (whole ▸ moved) (whole ▸ placed)
    rw [write_append,Place.after_append,Place.after_append,here] at reached
    rw [write_append,Place.after_append,Place.after_append,here] at later
    rw [write_append,r.events_piece stands,here,r.event_rewritten shift stands reached,later,eventsFrom_cons,
      List.map_append]
    cases piece.event? (Place.start.after front) <;> rfl

theorem scan_write (source : List Char) (moved : ∀ before after, before ++ after = source →
      shift (byteLength before) = byteLength (r.write before)) :
    (scan (r.write source)).tokens = (scan source).tokens.map (Token.rewritten r.write shift) ∧
      (scan (r.write source)).errors = (scan source).errors.map (LexError.rewritten r.anew shift) := by
  have told : events (r.write source) = (events source).map (r.event shift) :=
    r.events_write shift (segments_splits source) [] moved
  have tokens (all : List Event) : (all.map (r.event shift)).filterMap Event.token? =
      (all.filterMap Event.token?).map (Token.rewritten r.write shift) := by
    rw [List.filterMap_map,List.map_filterMap]
    congr 1
    funext event
    cases event <;> rfl
  have errors (all : List Event) : (all.map (r.event shift)).filterMap Event.error? =
      (all.filterMap Event.error?).map (LexError.rewritten r.anew shift) := by
    rw [List.filterMap_map,List.map_filterMap]
    congr 1
    funext event
    cases event <;> rfl
  have finish : (scan (r.write source)).endToken = (scan source).endToken.rewritten r.write shift := by
    simp only [Scan.endToken,scan,start_after,lineFeeds_write,← moved source [] (List.append_nil _)]
    rfl
  refine ⟨?_,?_⟩
  · rw [Scan.tokens,finish,scan,told,tokens,Scan.tokens,List.map_append]
    rfl
  · rw [Scan.errors,scan,told,errors]
    rfl

end Rewriting

def withReturns (text : List Char) : List Char := text.flatMap fun c => if c = '\n' then ['\r','\n'] else [c]

def returning : Rewriting := ⟨1,id,fun _ _ => rfl,fun _ stray => stray⟩

theorem returning_write : returning.write = withReturns := rfl

theorem byteLength_withReturns (text : List Char) : byteLength (withReturns text) = byteLength text + lineFeeds text := by
  induction text with
  | nil => rfl
  | cons c text ih =>
    have head : byteLength (if c = '\n' then ['\r','\n'] else [c]) = byteLength [c] + lineFeeds [c] := by
      split
      · rename_i feed
        subst feed
        rfl
      · rename_i notFeed
        rw [lineFeeds_plain notFeed,Nat.add_zero]
    have front : byteLength (c :: text) = byteLength [c] + byteLength text := byteLength_append [c] text
    have feeds : lineFeeds (c :: text) = lineFeeds [c] + lineFeeds text := lineFeeds_append [c] text
    rw [withReturns,List.flatMap_cons,byteLength_append,head,front,feeds]
    rw [withReturns] at ih
    omega

theorem withReturns_single {text : List Char} (single : '\n' ∉ text) : withReturns text = text := by
  have each : withReturns text = text.flatMap fun c => [c] := by
    refine List.flatMap_congr fun c member => if_neg ?_
    rintro rfl
    exact single member
  exact each.trans (List.flatMap_singleton' text)

def Token.content (token : Token) : TokenKind × List Char × Option Literal × Nat :=
  (token.kind,token.lexeme,token.literal,token.position.line)

theorem content_single {piece : Segment} {after : List Char} {place : Place} {token : Token}
    (stands : piece.StandsBefore after) (told : piece.event? place = some (.token token))
    (single : token.kind = .string → '\n' ∉ token.lexeme) (shift : Nat → Nat) :
    (token.rewritten withReturns shift).content = token.content := by
  have same (notFeed : piece ≠ .blank '\n') (kept : piece.rewritten returning = piece) :
      withReturns piece.text = piece.text := by
    rw [← returning_write,← returning.rewritten_text stands notFeed,kept]
  cases piece with
  | string body =>
    cases told
    have lexeme := single rfl
    have inside : '\n' ∉ body := fun member => lexeme (List.mem_cons_of_mem _ (List.mem_append_left _ member))
    simp only [Token.content,Token.rewritten,withReturns_single lexeme,Option.map_some,Literal.rewritten,
      withReturns_single inside]
    rfl
  | number whole fraction | word letters | operator o =>
    cases told
    simp only [Token.content,Token.rewritten,same (fun blank => by cases blank) rfl]
    rfl
  | _ => cases told

def returnShift (source : List Char) (offset : Nat) : Nat := offset + lineFeeds (slice source 0 offset)

-- Line ends are written in one way or the other: kinds, values and lines are the same,
-- every offset moves by the returns before it, and a line feed inside a string gets its
-- return too.
theorem scan_withReturns (source : List Char) :
    (scan (withReturns source)).tokens =
        (scan source).tokens.map (Token.rewritten withReturns (returnShift source)) ∧
      (scan (withReturns source)).errors = (scan source).errors.map (LexError.rewritten id (returnShift source)) ∧
      ((∀ token ∈ (scan source).tokens, token.kind = .string → '\n' ∉ token.lexeme) →
        (scan (withReturns source)).tokens.map Token.content = (scan source).tokens.map Token.content) := by
  have moved (before after : List Char) (whole : before ++ after = source) :
      returnShift source (byteLength before) = byteLength (returning.write before) := by
    rw [returnShift,← whole,slice_front,returning_write,byteLength_withReturns]
  obtain ⟨tokens,errors⟩ := returning.scan_write (returnShift source) source moved
  refine ⟨tokens,errors,?_⟩
  intro single
  rw [← returning_write,tokens,List.map_map]
  refine List.map_congr_left ?_
  intro token member
  rcases List.mem_append.mp member with told | last
  · obtain ⟨event,present,seen⟩ := List.mem_filterMap.mp told
    obtain ⟨front,piece,after,stands,_,placed⟩ := event_piece (segments_splits source) [] present
    have tells : (piece.event? (Place.start.after front)).bind Event.token? = some token := placed ▸ seen
    exact content_single stands (token_seen tells) (single token member) (returnShift source)
  · rw [List.mem_singleton.mp last]
    rfl

theorem scan_withReturns_comment :
    let source := ['/','/','"','\n','1','\n','@']
    (∀ token ∈ (scan source).tokens, token.kind = .string → '\n' ∉ token.lexeme) ∧
      (scan (withReturns source)).tokens =
        [⟨.number,['1'],some (.number ⟨0x3ff0000000000000⟩),⟨2,⟨5,6⟩⟩⟩,⟨.endOfSource,[],none,⟨3,⟨9,9⟩⟩⟩] ∧
      (scan (withReturns source)).errors = [⟨.unexpectedCharacter '@',⟨3,⟨8,9⟩⟩⟩] ∧
      (scan (withReturns source)).tokens.map Token.content = (scan source).tokens.map Token.content := by
  intro source
  have told : events source =
      [.token ⟨.number,['1'],some (.number ⟨0x3ff0000000000000⟩),⟨2,⟨4,5⟩⟩⟩,
        .error ⟨.unexpectedCharacter '@',⟨3,⟨6,7⟩⟩⟩] := by
    have comment : Segment.read '/' ['/','"','\n','1','\n','@'] = (.lineComment ['"'],['\n','1','\n','@']) := rfl
    have first : Segment.read '\n' ['1','\n','@'] = (.blank '\n',['1','\n','@']) := rfl
    have number : Segment.read '1' ['\n','@'] = (.number ['1'] [],['\n','@']) := rfl
    have second : Segment.read '\n' ['@'] = (.blank '\n',['@']) := rfl
    have stray : Segment.read '@' [] = (.stray '@',[]) := rfl
    rw [events_from,segments_cons,comment,segments_cons,first,segments_cons,number,segments_cons,second,
      segments_cons,stray,segments_nil]
    decide +kernel
  have tokens : (scan source).tokens =
      [⟨.number,['1'],some (.number ⟨0x3ff0000000000000⟩),⟨2,⟨4,5⟩⟩⟩,⟨.endOfSource,[],none,⟨3,⟨7,7⟩⟩⟩] := by
    rw [Scan.tokens,scan,told]
    rfl
  have single : ∀ token ∈ (scan source).tokens, token.kind = .string → '\n' ∉ token.lexeme := by
    rw [tokens]
    decide
  obtain ⟨moved,errors,content⟩ := scan_withReturns source
  refine ⟨single,?_,?_,content single⟩
  · rw [moved,tokens]
    decide +kernel
  · rw [errors,Scan.errors,scan,told]
    decide +kernel

theorem byteLength_map {f : Char → Char} (size : ∀ c, (f c).utf8Size = c.utf8Size) (text : List Char) :
    byteLength (text.map f) = byteLength text := by
  induction text with
  | nil => rfl
  | cons c text ih => rw [List.map_cons,byteLength_cons,byteLength_cons,ih,size]

section Renamed

variable {f : Char → Char} (fixed : ∀ c, InAlphabet c → f c = c)
  (outside : ∀ c, ¬ InAlphabet c → ¬ InAlphabet (f c))

def Rewriting.ofMap : Rewriting where
  returns := 0
  anew := f
  keeps c notStray := fixed c (Decidable.not_not.mp fun out => notStray (isStray_iff.mpr out))
  strays c stray := isStray_iff.mpr (outside c (isStray_iff.mp stray))

theorem ofMap_write : (Rewriting.ofMap fixed outside).write = List.map f := by
  funext text
  have each (c : Char) : (Rewriting.ofMap fixed outside).writeChar c = [f c] := by
    by_cases feed : c = '\n'
    · rw [feed,fixed '\n' (by decide)]
      rfl
    · exact Rewriting.write_other _ feed
  rw [Rewriting.write,List.flatMap_congr fun c _ => each c,List.map_eq_flatMap]

end Renamed

-- Of a character outside the alphabet the scan only knows that it is outside: all of them
-- are treated alike, the null character too.
theorem scan_renamed (f : Char → Char) (fixed : ∀ c, InAlphabet c → f c = c)
    (outside : ∀ c, ¬ InAlphabet c → ¬ InAlphabet (f c)) (size : ∀ c, (f c).utf8Size = c.utf8Size)
    (source : List Char) :
    (scan (source.map f)).tokens = (scan source).tokens.map (Token.rewritten (List.map f) id) ∧
      (scan (source.map f)).errors = (scan source).errors.map (LexError.rewritten f id) := by
  have write := ofMap_write fixed outside
  have moved (before after : List Char) (_ : before ++ after = source) :
      id (byteLength before) = byteLength ((Rewriting.ofMap fixed outside).write before) := by
    rw [write]
    exact (byteLength_map size before).symm
  have told := (Rewriting.ofMap fixed outside).scan_write id source moved
  rwa [write] at told

theorem scan_renamed_null :
    let f := fun c => if c = '\x00' then '\x01' else c
    let source := ['!','\x00','"','\x00','"','/','*','\x00']
    (∀ c, InAlphabet c → f c = c) ∧ (∀ c, ¬ InAlphabet c → ¬ InAlphabet (f c)) ∧
      (∀ c, (f c).utf8Size = c.utf8Size) ∧
      (scan (source.map f)).tokens =
        [⟨.operator .bang,['!'],none,⟨1,⟨0,1⟩⟩⟩,
          ⟨.string,['"','\x01','"'],some (.text ['\x01']),⟨1,⟨2,5⟩⟩⟩,⟨.endOfSource,[],none,⟨1,⟨8,8⟩⟩⟩] ∧
      (scan (source.map f)).errors = [⟨.unexpectedCharacter '\x01',⟨1,⟨1,2⟩⟩⟩] := by
  intro f source
  have fixed : ∀ c, InAlphabet c → f c = c := by
    intro c member
    refine if_neg ?_
    rintro rfl
    exact absurd member (by decide)
  have outside : ∀ c, ¬ InAlphabet c → ¬ InAlphabet (f c) := by
    intro c out
    by_cases null : c = '\x00'
    · rw [show f c = '\x01' from if_pos null]
      decide
    · rwa [show f c = c from if_neg null]
  have size : ∀ c, (f c).utf8Size = c.utf8Size := by
    intro c
    by_cases null : c = '\x00'
    · rw [show f c = '\x01' from if_pos null,null]
      rfl
    · rw [show f c = c from if_neg null]
  have told : events source =
      [.token ⟨.operator .bang,['!'],none,⟨1,⟨0,1⟩⟩⟩,.error ⟨.unexpectedCharacter '\x00',⟨1,⟨1,2⟩⟩⟩,
        .token ⟨.string,['"','\x00','"'],some (.text ['\x00']),⟨1,⟨2,5⟩⟩⟩,.openComment 1] := by
    have bang : Segment.read '!' ['\x00','"','\x00','"','/','*','\x00'] =
        (.operator .bang,['\x00','"','\x00','"','/','*','\x00']) := rfl
    have null : Segment.read '\x00' ['"','\x00','"','/','*','\x00'] =
        (.stray '\x00',['"','\x00','"','/','*','\x00']) := rfl
    have string : Segment.read '"' ['\x00','"','/','*','\x00'] = (.string ['\x00'],['/','*','\x00']) := rfl
    have comment : Segment.read '/' ['*','\x00'] = (.openComment ['\x00'],[]) := rfl
    rw [events_from,segments_cons,bang,segments_cons,null,segments_cons,string,segments_cons,comment,
      segments_nil]
    decide +kernel
  obtain ⟨tokens,errors⟩ := scan_renamed f fixed outside size source
  refine ⟨fixed,outside,size,?_,?_⟩
  · rw [tokens,Scan.tokens,scan,told]
    decide +kernel
  · rw [errors,Scan.errors,scan,told]
    decide +kernel

end ScriptLexer
