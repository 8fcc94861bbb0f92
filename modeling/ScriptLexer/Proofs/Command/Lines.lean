import Mathlib
import ScriptLexer.Proofs.Command.Output
import ScriptLexer.Proofs.Scan.Display
import ScriptLexer.Proofs.Scan.Returns

namespace ScriptLexer

theorem withoutReturns_returns (line : List Char) :
    ∃ returns, IsReturns returns ∧ line = withoutReturns line ++ returns := by
  refine ⟨(line.reverse.takeWhile (· == '\r')).reverse,?_,?_⟩
  · intro c member
    exact eq_of_beq (inside_takeWhile _ _ c (List.mem_reverse.mp member))
  · have whole := congrArg List.reverse (List.takeWhile_append_dropWhile (p := (· == '\r')) (l := line.reverse))
    rw [List.reverse_append,List.reverse_reverse] at whole
    exact whole.symm

theorem events_typed {line : List Char} (closed : IsClosed line) : events (withoutReturns line) = events line := by
  obtain ⟨returns,plain,whole⟩ := withoutReturns_returns line
  have bare : IsClosed (withoutReturns line) := isClosed_returns plain (whole ▸ closed)
  have told := events_returns (segments_splits (withoutReturns line)) (isClosed_pieces bare) plain .start
  rw [← whole] at told
  exact told.symm

def tokenEntries (source : List Char) : List String :=
  ((events source).filterMap Event.token?).map Token.display

theorem entries_clean {source : List Char} (clean : (scan source).errors = []) :
    entries source = tokenEntries source ++ ["EOF "] := by
  rw [entries,clean,List.map_nil,List.nil_append,Scan.tokens,List.map_append]
  rfl

theorem startsOf_texts (before : List Char) (texts : List (List Char)) :
    (startsOf before texts).map (·.2) = texts := by
  induction texts generalizing before with
  | nil => rfl
  | cons text texts ih => rw [startsOf,List.map_cons,ih]

theorem joined_clean {lines : List (List Char)} (nonempty : lines ≠ [])
    (closed : ∀ line ∈ lines, IsClosed line) (clean : ∀ line ∈ lines, (scan line).errors = []) :
    (scan (List.intercalate ['\n'] lines)).errors = [] ∧
      tokenEntries (List.intercalate ['\n'] lines) = lines.flatMap tokenEntries := by
  obtain ⟨texts,last,rfl⟩ := (List.eq_nil_or_concat lines).resolve_left nonempty
  rw [List.concat_eq_append] at closed clean ⊢
  have told : events (List.intercalate ['\n'] (texts ++ [last])) =
      (startsOf [] (texts ++ [last])).flatMap fun part => (events part.2).map (Event.moved part.1) :=
    events_joined [] texts last fun text member => closed text (List.mem_append_left _ member)
  have each {α : Type} (view : List Char → List α) :
      (startsOf [] (texts ++ [last])).flatMap (fun part => view part.2) = (texts ++ [last]).flatMap view := by
    have parts := List.flatMap_map (·.2) view (startsOf [] (texts ++ [last]))
    rw [startsOf_texts] at parts
    exact parts.symm
  refine ⟨?_,?_⟩
  · rw [Scan.errors,scan,told,List.filterMap_flatMap,List.flatMap_eq_nil_iff]
    intro part member
    have errorless := clean part.2 (startsOf_texts [] (texts ++ [last]) ▸ List.mem_map_of_mem member)
    rw [error_moved]
    exact congrArg (List.map _) errorless
  · rw [tokenEntries,told,List.filterMap_flatMap,List.map_flatMap,← each]
    refine List.flatMap_congr fun part _ => ?_
    rw [token_moved,List.map_map]
    rfl

theorem numberText_single (x : Binary64) : '\n' ∉ x.text := by
  intro feed
  cases finite : x.isFinite with
  | true =>
    rw [Binary64.text_finite finite,Decimal.text_numberText] at feed
    rcases List.mem_append.mp feed with sign | magnitude
    · split at sign <;> simp at sign
    · rcases mem_numberText magnitude with whole | point | fraction
      · cases Decimal.wholeDigits_digits _ _ whole
      · cases point
      · cases Decimal.fractionDigits_digits _ _ fraction
  | false =>
    have listed := Binary64.text_infinite finite
    simp only [List.mem_cons,List.not_mem_nil,or_false] at listed
    rcases listed with same | same | same <;> simp [same] at feed

theorem name_single : ∀ kind ∈ TokenKind.all, '\n' ∉ kind.name.toList := by decide +kernel

theorem kind_single (kind : TokenKind) : '\n' ∉ kind.name.toList := name_single kind (TokenKind.mem_all kind)

theorem name_apart : ∀ kind ∈ TokenKind.all, kind ≠ .endOfSource →
    (seenEntry kind.name).take 2 ≠ ['E','O'] ∧ 2 ≤ (seenEntry kind.name).length := by decide +kernel

theorem display_apart {token : Token} (kind : token.kind ≠ .endOfSource) :
    seenEntry token.display ≠ seenEntry "EOF " := by
  obtain ⟨apart,long⟩ := name_apart token.kind (TokenKind.mem_all _) kind
  have begins : ∃ more, seenEntry token.display = seenEntry token.kind.name ++ more := by
    unfold Token.display
    split
    · simp only [seenEntry_append,List.append_assoc]
      exact ⟨_,rfl⟩
    · simp only [seenEntry_append,List.append_assoc]
      exact ⟨_,rfl⟩
  intro same
  obtain ⟨more,written⟩ := begins
  have front := congrArg (List.take 2) (written.symm.trans same)
  rw [List.take_append_of_le_length long] at front
  exact apart front

theorem display_single {piece : Segment} {place : Place} {token : Token}
    (told : piece.event? place = some (.token token)) (single : '\n' ∉ piece.text) :
    '\n' ∉ token.display.toList := by
  have name := kind_single token.kind
  have written {text : List Char} (plain : '\n' ∉ text) :
      '\n' ∉ (token.kind.name ++ " " ++ String.ofList text).toList := by
    simp only [String.toList_append,String.toList_ofList,List.mem_append,not_or]
    exact ⟨⟨name,by decide⟩,plain⟩
  have valued {text value : List Char} (plain : '\n' ∉ text) (also : '\n' ∉ value) :
      '\n' ∉ (token.kind.name ++ " " ++ String.ofList text ++ " " ++ String.ofList value).toList := by
    have front := written plain
    simp only [String.toList_append,String.toList_ofList,List.mem_append,not_or] at front ⊢
    exact ⟨⟨front,by decide⟩,also⟩
  cases piece with
  | string body =>
    cases told
    exact valued single fun feed => single (List.mem_cons_of_mem _ (List.mem_append_left _ feed))
  | number whole fraction =>
    cases told
    exact valued single (numberText_single _)
  | word letters | operator o =>
    cases told
    exact written single
  | _ => cases told

theorem tokenEntries_rows {source : List Char} (single : '\n' ∉ source) :
    ∀ entry ∈ tokenEntries source, '\n' ∉ entry.toList ∧ seenEntry entry ≠ seenEntry "EOF " := by
  intro entry member
  obtain ⟨token,listed,rfl⟩ := List.mem_map.mp member
  obtain ⟨event,present,seen⟩ := List.mem_filterMap.mp listed
  obtain ⟨front,piece,after,_,whole,placed⟩ := event_piece (segments_splits source) [] present
  have tells : (piece.event? (Place.start.after front)).bind Event.token? = some token := placed ▸ seen
  have told := token_seen tells
  have inside : '\n' ∉ piece.text := by
    intro feed
    have later : '\n' ∈ front ++ piece.text ++ after := List.mem_append_left after (List.mem_append_right front feed)
    rw [whole] at later
    exact single later
  exact ⟨display_single told inside,display_apart (event_kind told)⟩

-- All lines that read like this one are left out, the last of them excepted.
def dropEarlier (line : List Char) : List (List Char) → List (List Char)
  | [] => []
  | first :: rest => if first = line ∧ line ∈ rest then dropEarlier line rest else first :: dropEarlier line rest

def keepLast (line text : String) : String :=
  String.ofList (List.intercalate ['\n'] (dropEarlier line.toList (outputLines text)))

theorem dropEarlier_apart {line : List Char} {front : List (List Char)} (apart : ∀ row ∈ front, row ≠ line)
    (back : List (List Char)) : dropEarlier line (front ++ back) = front ++ dropEarlier line back := by
  induction front with
  | nil => rfl
  | cons row front ih =>
    have other : ¬ (row = line ∧ line ∈ front ++ back) := fun both => apart row List.mem_cons_self both.1
    rw [List.cons_append,dropEarlier,if_neg other,ih fun later member => apart later (List.mem_cons_of_mem row member)]
    rfl

theorem dropEarlier_parts {line : List Char} {tail : List (List Char)} (absent : line ∉ tail)
    {parts : List (List (List Char))} (nonempty : parts ≠ []) (apart : ∀ part ∈ parts, ∀ row ∈ part, row ≠ line) :
    dropEarlier line (parts.flatMap (· ++ [line]) ++ tail) = parts.flatten ++ line :: tail := by
  have last : dropEarlier line (line :: tail) = line :: tail := by
    have others : ∀ row ∈ tail, row ≠ line := by
      rintro row member rfl
      exact absent member
    have kept := dropEarlier_apart others []
    rw [List.append_nil,dropEarlier,List.append_nil] at kept
    rw [dropEarlier,if_neg (fun both => absent both.2),kept]
  induction parts with
  | nil => exact absurd rfl nonempty
  | cons part parts ih =>
    have here := apart part List.mem_cons_self
    have later := fun other member => apart other (List.mem_cons_of_mem part member)
    rw [List.flatMap_cons,List.flatten_cons,List.append_assoc,List.append_assoc,List.append_assoc,
      dropEarlier_apart here]
    cases parts with
    | nil => exact congrArg (part ++ ·) last
    | cons next parts =>
      have again : line ∈ (next :: parts).flatMap (· ++ [line]) ++ tail := by
        rw [List.flatMap_cons]
        simp
      rw [List.singleton_append,dropEarlier,if_pos ⟨rfl,again⟩,ih (List.cons_ne_nil next parts) later]

theorem outputLines_entries {text : String} {shown : List String} (single : ∀ entry ∈ shown, '\n' ∉ entry.toList)
    (written : text.toList = shown.flatMap fun entry => seenEntry entry ++ ['\n']) :
    outputLines text = shown.map seenEntry ++ [[]] := by
  refine outputLines_rows ?_ (written.trans (List.flatMap_map seenEntry (· ++ ['\n']) shown).symm)
  intro row member
  obtain ⟨entry,present,rfl⟩ := List.mem_map.mp member
  exact seenEntry_single (single entry present)

section Typed

variable {lines : List (List Char)} (single : ∀ line ∈ lines, '\n' ∉ line)
  (clean : ∀ line ∈ lines, (scan line).errors = [] ∧ ¬ (scan line).LeavesComment)

theorem IsClosed.of_clean {line : List Char} (clean : (scan line).errors = [] ∧ ¬ (scan line).LeavesComment) :
    IsClosed line := by
  refine ⟨?_,clean.2⟩
  intro left
  obtain ⟨error,member,_⟩ := left
  rw [clean.1] at member
  cases member

theorem entries_typed {line : List Char} (clean : (scan line).errors = [] ∧ ¬ (scan line).LeavesComment) :
    entries (withoutReturns line) = tokenEntries line ++ ["EOF "] := by
  have told := events_typed (IsClosed.of_clean clean)
  have errorless : (scan (withoutReturns line)).errors = [] := by
    rw [Scan.errors,scan,told]
    exact clean.1
  rw [entries_clean errorless,tokenEntries,told]
  rfl

include clean in
theorem interact_entries :
    (interact lines).toList =
      (lines.flatMap fun line => tokenEntries line ++ ["EOF "]).flatMap fun entry => seenEntry entry ++ ['\n'] := by
  rw [interact,String.toList_join,List.flatMap_map,List.flatMap_assoc]
  refine List.flatMap_congr fun line member => ?_
  rw [answerLine,printed_entries,entries_typed (clean line member)]

include single clean in
theorem outputLines_interact :
    outputLines (interact lines) =
      (lines.map fun line => (tokenEntries line).map seenEntry).flatMap (· ++ ["EOF ".toList]) ++ [[]] := by
  have ended : ∀ entry ∈ lines.flatMap fun line => tokenEntries line ++ ["EOF "], '\n' ∉ entry.toList := by
    intro entry member
    obtain ⟨line,present,here⟩ := List.mem_flatMap.mp member
    rcases List.mem_append.mp here with told | last
    · exact (tokenEntries_rows (single line present) entry told).1
    · rw [List.mem_singleton.mp last]
      decide
  rw [outputLines_entries ended (interact_entries clean),List.map_flatMap,List.flatMap_map]
  simp only [List.map_append]
  rfl

end Typed

theorem read_stored (text : String) : String.fromUTF8? text.toUTF8 = some text := dif_pos text.isValidUTF8

-- Lines that are typed one by one and the same lines in one script give the same output,
-- but for the end that is shown for every line that is typed.
theorem run_typed_lines (read : String → Except ReadFault ByteArray) (typed lines : List (List Char))
    (arguments : List String) (name : String) (asks : Request.ofArguments arguments = .script name)
    (stored : read name = .ok (String.ofList (List.intercalate ['\n'] lines)).toUTF8) (nonempty : lines ≠ [])
    (single : ∀ line ∈ lines, '\n' ∉ line)
    (clean : ∀ line ∈ lines, (scan line).errors = [] ∧ ¬ (scan line).LeavesComment) :
    run read typed arguments = ⟨0,keepLast "EOF " (run read lines []).stdout,""⟩ := by
  let source := List.intercalate ['\n'] lines
  obtain ⟨errors,told⟩ := joined_clean nonempty (fun line member => IsClosed.of_clean (clean line member))
    fun line member => (clean line member).1
  have ended : ∀ entry ∈ lines.flatMap tokenEntries ++ ["EOF "], '\n' ∉ entry.toList := by
    intro entry member
    rcases List.mem_append.mp member with inside | last
    · obtain ⟨line,present,here⟩ := List.mem_flatMap.mp inside
      exact (tokenEntries_rows (single line present) entry here).1
    · rw [List.mem_singleton.mp last]
      decide
  have script : outputLines (printed source) =
      (lines.map fun line => (tokenEntries line).map seenEntry).flatten ++ "EOF ".toList :: [[]] := by
    have written : (printed source).toList =
        (lines.flatMap tokenEntries ++ ["EOF "]).flatMap fun entry => seenEntry entry ++ ['\n'] := by
      rw [printed_entries,entries_clean errors,told]
    rw [outputLines_entries ended written,List.map_append,List.map_flatMap,List.append_assoc]
    rfl
  have same : outputLines (printed source) = dropEarlier "EOF ".toList (outputLines (interact lines)) := by
    have parts : (lines.map fun line => (tokenEntries line).map seenEntry) ≠ [] :=
      fun empty => nonempty (List.map_eq_nil_iff.mp empty)
    rw [script,outputLines_interact single clean,dropEarlier_parts (by decide) parts]
    intro part member row here
    obtain ⟨line,present,rfl⟩ := List.mem_map.mp member
    obtain ⟨entry,listed,rfl⟩ := List.mem_map.mp here
    exact (tokenEntries_rows (single line present) entry listed).2
  have output : printed source = keepLast "EOF " (interact lines) := by
    rw [keepLast,← same,outputLines,List.intercalate_splitOn,String.ofList_toList]
  have answered : runScript (read name) = runSource source := by
    simp only [stored,runScript,read_stored,String.toList_ofList]
    rfl
  have finished : runSource source = .success (printed source) := by
    rw [runSource,errors]
    rfl
  simp only [run,asks,answered,finished,output]
  rfl

theorem run_typed_lines_two :
    let lines := [['a','\r'],['"','!','"','/','/','\r','\r']]
    let read := fun name =>
      if name = "a" then .ok (String.ofList (List.intercalate ['\n'] lines)).toUTF8 else .error .missing
    Request.ofArguments ["--","a"] = .script "a" ∧ (∀ line ∈ lines, '\n' ∉ line) ∧
      (∀ line ∈ lines, (scan line).errors = [] ∧ ¬ (scan line).LeavesComment) ∧
      (run read lines []).stdout = "Identifier a\nEOF \nString \"!\" !\nEOF \n" ∧
      run read [] ["--","a"] = ⟨0,"Identifier a\nString \"!\" !\nEOF \n",""⟩ := by
  intro lines read
  have asks : Request.ofArguments ["--","a"] = .script "a" := by decide +kernel
  have single : ∀ line ∈ lines, '\n' ∉ line := by decide
  have letter : segments ['a','\r'] = [.word ['a'],.blank '\r'] := by
    have word : Segment.read 'a' ['\r'] = (.word ['a'],['\r']) := rfl
    have blank : Segment.read '\r' [] = (.blank '\r',[]) := rfl
    rw [segments_cons,word,segments_cons,blank,segments_nil]
  have quoted : segments ['"','!','"','/','/','\r','\r'] = [.string ['!'],.lineComment ['\r','\r']] := by
    have string : Segment.read '"' ['!','"','/','/','\r','\r'] = (.string ['!'],['/','/','\r','\r']) := rfl
    have comment : Segment.read '/' ['/','\r','\r'] = (.lineComment ['\r','\r'],[]) := rfl
    rw [segments_cons,string,segments_cons,comment,segments_nil]
  have clean : ∀ line ∈ lines, (scan line).errors = [] ∧ ¬ (scan line).LeavesComment := by
    intro line member
    simp only [lines,List.mem_cons,List.not_mem_nil,or_false] at member
    rcases member with rfl | rfl
    · refine ⟨?_,?_⟩
      · rw [Scan.errors,scan,events_from,letter]
        rfl
      · rw [leavesComment_iff,letter]
        simp
    · refine ⟨?_,?_⟩
      · rw [Scan.errors,scan,events_from,quoted]
        rfl
      · rw [leavesComment_iff,quoted]
        simp
  have typed : (run read lines []).stdout = "Identifier a\nEOF \nString \"!\" !\nEOF \n" := by
    have written : (run read lines []).stdout = interact lines := rfl
    rw [written,← String.toList_inj,interact_entries clean]
    simp only [lines,tokenEntries,events_from,letter,quoted,List.flatMap_cons,List.flatMap_nil]
    decide +kernel
  refine ⟨asks,single,clean,typed,?_⟩
  rw [run_typed_lines read [] lines ["--","a"] "a" asks rfl (by decide) single clean,typed]
  decide +kernel

end ScriptLexer
