import ScriptLexer.Proofs.Diagnostic.Search

-- What the walk over the bytes keeps true, turn by turn, and that it finds the lines which
-- the table of lines names.
namespace ScriptLexer

namespace Search

def lineStarts (ends : List LineEnd) : List Nat := 0 :: ends.map LineEnd.next

def endedBefore (span : Span) (ends : List LineEnd) : Nat := ends.countP (·.next ≤ span.start)

def endedBehind (span : Span) (ends : List LineEnd) : Nat := ends.countP (span.last < ·.stop)

structure Follows (span : Span) (before : Nat) (ends : List LineEnd) (s : Search) : Prop where
  met : ∀ lineEnd ∈ ends, lineEnd.stop < lineEnd.next ∧ lineEnd.next ≤ s.offset
  line : s.line = endedBefore span ends - before
  starts : s.starts = ((lineStarts ends).take (endedBefore span ends)).drop (endedBefore span ends - before)
  current : (lineStarts ends).getLast? = some s.current
  passed : s.passed = decide (span.last < s.offset)
  behind : s.behind = endedBehind span ends - 1
  ended : s.ended = decide (0 < endedBehind span ends)
  column : endedBehind span ends = 0 →
    s.column = min span.start ((ends[endedBefore span ends]?.map LineEnd.stop).getD s.offset) -
      (lineStarts ends)[endedBefore span ends]?.getD 0

variable {span : Span} {before after : Nat} {ends : List LineEnd} {s : Search} {cell : Cell}

theorem follows_initial (span : Span) (before : Nat) : Follows span before [] initial := by
  refine ⟨by simp,?_,?_,rfl,by simp [initial],rfl,by simp [initial,endedBehind],?_⟩
  · simp [initial,endedBefore]
  · simp [initial,endedBefore,lineStarts]
  · simp [initial,endedBefore,lineStarts]

theorem span_last (span : Span) :
    span.start ≤ span.last + 1 ∧ span.start + (span.length - 1) ≤ max span.start span.last := by
  rw [Span.last]
  omega

theorem Follows.endedBehind_none (follows : Follows span before ends s) (notPassed : s.passed = false) :
    endedBehind span ends = 0 := by
  rw [follows.passed,decide_eq_false_iff_not] at notPassed
  rw [endedBehind,List.countP_eq_zero]
  intro lineEnd member
  have := follows.met lineEnd member
  rw [decide_eq_true_eq]
  omega

theorem Follows.endedBefore_all (follows : Follows span before ends s) (early : s.offset ≤ span.start) :
    endedBefore span ends = ends.length := by
  rw [endedBefore,List.countP_eq_length]
  intro lineEnd member
  have := follows.met lineEnd member
  exact decide_eq_true (by omega)

theorem lineStarts_concat (ends : List LineEnd) (lineEnd : LineEnd) :
    lineStarts (ends ++ [lineEnd]) = lineStarts ends ++ [lineEnd.next] := by
  rw [lineStarts,List.map_append]
  rfl

theorem lineStarts_length (ends : List LineEnd) : (lineStarts ends).length = ends.length + 1 := by
  rw [lineStarts,List.length_cons,List.length_map]

theorem Follows.passed_next (follows : Follows span before ends s) (forward : s.offset < cell.next) :
    (s.passed || decide (span.last < cell.next)) = decide (span.last < cell.next) := by
  rw [follows.passed]
  by_cases here : span.last < cell.next
  · rw [decide_eq_true here,Bool.or_true]
  · rw [decide_eq_false here,decide_eq_false (by omega),Bool.or_false]

theorem Follows.start_le (follows : Follows span before ends s) :
    (lineStarts ends)[endedBefore span ends]?.getD 0 ≤ s.offset := by
  cases found : (lineStarts ends)[endedBefore span ends]? with
  | none => exact Nat.zero_le _
  | some start =>
    rw [Option.getD_some]
    rcases List.mem_cons.mp (List.mem_of_getElem? found) with zero | later
    · rw [zero]
      exact Nat.zero_le _
    · obtain ⟨lineEnd,member,rfl⟩ := List.mem_map.mp later
      exact (follows.met lineEnd member).2

theorem Follows.read_byte (follows : Follows span before ends s) (first : cell.first = s.offset)
    (single : cell.next = cell.first + 1) (plain : cell.ends = false) :
    Follows span before ends (s.read span before cell) := by
  have next : cell.next = s.offset + 1 := by rw [single,first]
  have same : s.read span before cell =
      {s with offset := cell.next,passed := s.passed || span.last < cell.next,
              column := if cell.next ≤ span.start then s.column + 1 else s.column} := by
    rw [read,plain,if_neg Bool.false_ne_true,readByte]
    split <;> rfl
  rw [same]
  refine ⟨?_,follows.line,follows.starts,follows.current,follows.passed_next (by omega),follows.behind,
    follows.ended,?_⟩
  · intro lineEnd member
    have := follows.met lineEnd member
    exact ⟨this.1,by show lineEnd.next ≤ cell.next; omega⟩
  · intro early
    have column := follows.column early
    have start := follows.start_le
    show (if cell.next ≤ span.start then s.column + 1 else s.column) = _
    cases found : ends[endedBefore span ends]? with
    | some lineEnd =>
      have late : ¬ cell.next ≤ span.start := by
        intro early
        have all := follows.endedBefore_all (by omega)
        rw [all,List.getElem?_eq_none (Nat.le_refl _)] at found
        cases found
      rw [found] at column
      rw [if_neg late]
      exact column
    | none =>
      rw [found] at column
      simp only [Option.map_none,Option.getD_none] at column ⊢
      split <;> omega

theorem endedBefore_concat (span : Span) (ends : List LineEnd) (lineEnd : LineEnd) :
    endedBefore span (ends ++ [lineEnd]) = endedBefore span ends + if lineEnd.next ≤ span.start then 1 else 0 := by
  rw [endedBefore,List.countP_append,List.countP_singleton]
  simp only [decide_eq_true_eq]
  rfl

theorem endedBehind_concat (span : Span) (ends : List LineEnd) (lineEnd : LineEnd) :
    endedBehind span (ends ++ [lineEnd]) = endedBehind span ends + if span.last < lineEnd.stop then 1 else 0 := by
  rw [endedBehind,List.countP_append,List.countP_singleton]
  simp only [decide_eq_true_eq]
  rfl

theorem endedBefore_le (span : Span) (ends : List LineEnd) : endedBefore span ends ≤ ends.length :=
  List.countP_le_length

theorem Follows.starts_current (follows : Follows span before ends s)
    (all : endedBefore span ends = ends.length) :
    s.starts ++ [s.current] = (lineStarts ends).drop (ends.length - before) := by
  obtain ⟨front,whole⟩ := List.getLast?_eq_some_iff.mp follows.current
  have size : front.length = ends.length := by
    have both := congrArg List.length whole
    rw [lineStarts_length,List.length_append,List.length_singleton] at both
    omega
  rw [follows.starts,all,whole,← size,List.take_left,List.drop_append_of_le_length (Nat.sub_le _ _)]

theorem queue_pushed {row : List Nat} {line : Nat} (queue : row = (lineStarts ends).drop (ends.length - before))
    (dropped : line = ends.length - before) :
    (if before < row.length then row.tail else row) = (lineStarts ends).drop (ends.length + 1 - before) ∧
      (if before < row.length then line + 1 else line) = ends.length + 1 - before := by
  have size : row.length = ends.length + 1 - (ends.length - before) := by
    rw [queue,List.length_drop,lineStarts_length]
  by_cases full : before < row.length
  · rw [if_pos full,if_pos full,queue,← List.drop_one,List.drop_drop]
    have next : ends.length - before + 1 = ends.length + 1 - before := by omega
    exact ⟨by rw [next],by omega⟩
  · have next : ends.length - before = ends.length + 1 - before := by omega
    rw [if_neg full,if_neg full,← next]
    exact ⟨queue,dropped⟩

theorem Follows.met_next (follows : Follows span before ends s) (first : cell.first = s.offset)
    (forward : cell.first < cell.next) :
    ∀ lineEnd ∈ ends ++ [⟨cell.first,cell.next⟩], lineEnd.stop < lineEnd.next ∧ lineEnd.next ≤ cell.next := by
  intro lineEnd member
  rcases List.mem_append.mp member with old | new
  · have := follows.met lineEnd old
    omega
  · obtain rfl := List.mem_singleton.mp new
    exact ⟨forward,Nat.le_refl _⟩

theorem current_next (lineEnd : LineEnd) :
    (lineStarts (ends ++ [lineEnd])).getLast? = some lineEnd.next := by
  rw [lineStarts_concat,List.getLast?_concat]

theorem Follows.read_early (follows : Follows span before ends s) (first : cell.first = s.offset)
    (forward : cell.first < cell.next) (stops : cell.ends = true) (early : cell.next ≤ span.start) :
    Follows span before (ends ++ [⟨cell.first,cell.next⟩]) (s.read span before cell) := by
  have all := follows.endedBefore_all (by omega)
  have bounds := span_last span
  have notPassed : s.passed = false := by
    rw [follows.passed]
    exact decide_eq_false (by omega)
  have noneBehind := follows.endedBehind_none notPassed
  have stillNone : endedBehind span (ends ++ [⟨cell.first,cell.next⟩]) = 0 := by
    rw [endedBehind_concat,noneBehind,if_neg (by show ¬ span.last < cell.first; omega)]
  have count : endedBefore span (ends ++ [⟨cell.first,cell.next⟩]) = ends.length + 1 := by
    rw [endedBefore_concat,all,if_pos early]
  have line : s.line = ends.length - before := by rw [follows.line,all]
  obtain ⟨starts,dropped⟩ := queue_pushed (follows.starts_current all) line
  have same : s.read span before cell =
      {s with
        offset := cell.next
        passed := s.passed || span.last < cell.next
        column := 0
        current := cell.next
        line := ends.length + 1 - before
        starts := (lineStarts ends).drop (ends.length + 1 - before)} := by
    rw [read,stops,if_pos rfl,endLine,if_pos early,← starts,← dropped]
    dsimp only
    split <;> rfl
  rw [same]
  refine ⟨follows.met_next first forward,?_,?_,current_next _,follows.passed_next (by omega),?_,?_,?_⟩
  · rw [count]
  · rw [count,lineStarts_concat,List.take_left' (lineStarts_length ends)]
  · exact (stillNone.trans noneBehind.symm) ▸ follows.behind
  · exact (stillNone.trans noneBehind.symm) ▸ follows.ended
  · intro _
    rw [count,List.getElem?_eq_none (by simp),lineStarts_concat,← lineStarts_length ends,List.getElem?_concat_length]
    simp only [Option.map_none,Option.getD_none,Option.getD_some]
    omega

theorem starts_late {lineEnd : LineEnd} (late : ¬ lineEnd.next ≤ span.start) (ends : List LineEnd) :
    endedBefore span (ends ++ [lineEnd]) = endedBefore span ends ∧
      (lineStarts (ends ++ [lineEnd])).take (endedBefore span ends) =
        (lineStarts ends).take (endedBefore span ends) ∧
      (lineStarts (ends ++ [lineEnd]))[endedBefore span ends]? = (lineStarts ends)[endedBefore span ends]? := by
  have below : endedBefore span ends < (lineStarts ends).length := by
    rw [lineStarts_length]
    exact Nat.lt_succ_of_le (endedBefore_le span ends)
  refine ⟨?_,?_,?_⟩
  · rw [endedBefore_concat,if_neg late,Nat.add_zero]
  · rw [lineStarts_concat,List.take_append_of_le_length (Nat.le_of_lt below)]
  · rw [lineStarts_concat,List.getElem?_append_left below]

theorem Follows.read_passed (follows : Follows span before ends s) (first : cell.first = s.offset)
    (forward : cell.first < cell.next) (stops : cell.ends = true) (passed : s.passed = true) :
    Follows span before (ends ++ [⟨cell.first,cell.next⟩]) (s.read span before cell) := by
  have bounds := span_last span
  have behind : span.last < cell.first := by
    rw [follows.passed,decide_eq_true_eq] at passed
    omega
  have late : ¬ cell.next ≤ span.start := by omega
  obtain ⟨count,queue,_⟩ :=
    starts_late (show ¬ (⟨cell.first,cell.next⟩ : LineEnd).next ≤ span.start from late) ends
  have more : endedBehind span (ends ++ [⟨cell.first,cell.next⟩]) = endedBehind span ends + 1 := by
    rw [endedBehind_concat,if_pos behind]
  have same : s.read span before cell =
      {s with
        offset := cell.next
        passed := s.passed || span.last < cell.next
        column := 0
        current := cell.next
        behind := if s.ended then s.behind + 1 else s.behind
        ended := true} := by
    rw [read,stops,if_pos rfl,endLine,if_neg late,if_pos ⟨by omega,passed⟩]
  rw [same]
  refine ⟨follows.met_next first forward,?_,?_,current_next _,follows.passed_next (by omega),?_,?_,?_⟩
  · rw [count]
    exact follows.line
  · rw [count,queue]
    exact follows.starts
  · have ended := follows.ended
    have counted := follows.behind
    rw [more]
    show (if s.ended then s.behind + 1 else s.behind) = _
    rw [ended,counted]
    simp only [decide_eq_true_eq]
    split <;> omega
  · rw [more]
    exact (decide_eq_true (Nat.succ_pos _)).symm
  · intro noneBehind
    rw [more] at noneBehind
    cases noneBehind

theorem Follows.read_open (follows : Follows span before ends s) (first : cell.first = s.offset)
    (forward : cell.first < cell.next) (stops : cell.ends = true) (late : ¬ cell.next ≤ span.start)
    (notPassed : s.passed = false) :
    Follows span before (ends ++ [⟨cell.first,cell.next⟩]) (s.read span before cell) := by
  obtain ⟨count,queue,start⟩ :=
    starts_late (show ¬ (⟨cell.first,cell.next⟩ : LineEnd).next ≤ span.start from late) ends
  have noneBehind := follows.endedBehind_none notPassed
  have stillNone : endedBehind span (ends ++ [⟨cell.first,cell.next⟩]) = 0 := by
    have passed := follows.passed
    rw [notPassed,eq_comm,decide_eq_false_iff_not] at passed
    rw [endedBehind_concat,noneBehind,if_neg (by show ¬ span.last < cell.first; omega)]
  have same : s.read span before cell =
      {s with
        offset := cell.next
        passed := s.passed || span.last < cell.next
        current := cell.next} := by
    rw [read,stops,if_pos rfl,endLine,if_neg late,if_neg (by simp [notPassed])]
  rw [same]
  refine ⟨follows.met_next first forward,?_,?_,current_next _,follows.passed_next (by omega),?_,?_,?_⟩
  · rw [count]
    exact follows.line
  · rw [count,queue]
    exact follows.starts
  · exact (stillNone.trans noneBehind.symm) ▸ follows.behind
  · exact (stillNone.trans noneBehind.symm) ▸ follows.ended
  · intro _
    have column := follows.column noneBehind
    have below := endedBefore_le span ends
    rw [count,start]
    rcases Nat.lt_or_eq_of_le below with inside | all
    · rw [List.getElem?_append_left inside,List.getElem?_eq_getElem inside]
      rw [List.getElem?_eq_getElem inside] at column
      exact column
    · rw [all,List.getElem?_eq_none (Nat.le_refl _)] at column
      rw [all,List.getElem?_concat_length]
      show s.column = min span.start cell.first - _
      rw [first]
      exact column

theorem Follows.read_next (follows : Follows span before ends s) (first : cell.first = s.offset)
    (forward : cell.first < cell.next) (single : cell.ends = false → cell.next = cell.first + 1) :
    Follows span before (ends ++ cell.lineEnd?.toList) (s.read span before cell) := by
  cases stops : cell.ends with
  | false =>
    rw [Cell.lineEnd?,stops,if_neg Bool.false_ne_true,Option.toList_none,List.append_nil]
    exact follows.read_byte first (single stops) stops
  | true =>
    rw [Cell.lineEnd?,stops,if_pos rfl,Option.toList_some]
    by_cases early : cell.next ≤ span.start
    · exact follows.read_early first forward stops early
    · cases passed : s.passed with
      | true => exact follows.read_passed first forward stops passed
      | false => exact follows.read_open first forward stops early passed

variable {rest : List Cell} {stop : Nat}

def endsOf (cells : List Cell) : List LineEnd := cells.filterMap Cell.lineEnd?

theorem endsOf_cons (cell : Cell) (rest : List Cell) : endsOf (cell :: rest) = cell.lineEnd?.toList ++ endsOf rest := by
  rw [endsOf,List.filterMap_cons]
  cases cell.lineEnd? <;> rfl

theorem ends_later {offset : Nat} (joined : Joined offset rest stop) :
    offset ≤ stop ∧ ∀ lineEnd ∈ endsOf rest, offset ≤ lineEnd.stop ∧ lineEnd.stop < lineEnd.next := by
  induction joined with
  | nil offset => exact ⟨Nat.le_refl _,fun lineEnd member => nomatch member⟩
  | @cons offset stop cell rest first forward single later ih =>
    obtain ⟨inside,behind⟩ := ih
    refine ⟨by omega,?_⟩
    intro lineEnd member
    rw [endsOf_cons] at member
    rcases List.mem_append.mp member with here | after
    · rw [Cell.lineEnd?] at here
      split at here
      · obtain rfl := List.mem_singleton.mp here
        exact ⟨Nat.le_of_eq first.symm,forward⟩
      · cases here
    · have := behind lineEnd after
      omega

-- How a walk stops: at the end of the source, or behind the span where enough lines have ended.
inductive Halted (span : Span) (after stop : Nat) (ends unread : List LineEnd) (s : Search) : Prop where
  | atEnd (all : unread = []) (offset : s.offset = stop) (few : endedBehind span ends ≤ after)
  | enough (passed : span.last < s.offset) (inside : s.offset ≤ stop)
      (later : ∀ lineEnd ∈ unread, s.offset ≤ lineEnd.stop ∧ lineEnd.stop < lineEnd.next)
      (last : after = 0 ∧ endedBehind span ends = 0 ∨ 0 < after ∧
        ∃ lineEnd, ends.getLast? = some lineEnd ∧ lineEnd.next = s.offset ∧ endedBehind span ends = after + 1)

theorem Follows.few (follows : Follows span before ends s) (going : s.halts after = false) :
    endedBehind span ends ≤ after := by
  cases passed : s.passed with
  | false =>
    rw [follows.endedBehind_none passed]
    exact Nat.zero_le _
  | true =>
    rw [halts,passed,Bool.true_and,decide_eq_false_iff_not,follows.behind] at going
    omega

theorem Follows.enough (follows : Follows span before ends s) (going : s.halts after = false)
    (first : cell.first = s.offset) {t : Search} (next : Follows span before (ends ++ cell.lineEnd?.toList) t)
    (offset : t.offset = cell.next) (halted : t.halts after = true) :
    span.last < t.offset ∧ (after = 0 ∧ endedBehind span (ends ++ cell.lineEnd?.toList) = 0 ∨ 0 < after ∧
      ∃ lineEnd, (ends ++ cell.lineEnd?.toList).getLast? = some lineEnd ∧ lineEnd.next = t.offset ∧
        endedBehind span (ends ++ cell.lineEnd?.toList) = after + 1) := by
  have few := follows.few going
  rw [halts,Bool.and_eq_true,decide_eq_true_eq,next.passed,decide_eq_true_eq,next.behind] at halted
  refine ⟨halted.1,?_⟩
  have counted := halted.2
  rw [Cell.lineEnd?] at counted ⊢
  split at counted
  · rename_i stops
    have count := endedBehind_concat span ends ⟨cell.first,cell.next⟩
    rw [if_pos stops,Option.toList_some]
    rw [Option.toList_some] at counted
    rcases Nat.eq_zero_or_pos after with rfl | positive
    · have notPassed : s.passed = false := by simpa [halts] using going
      have ahead := follows.passed.symm.trans notPassed
      rw [decide_eq_false_iff_not,← first] at ahead
      rw [if_neg ahead] at count
      exact .inl ⟨rfl,by omega⟩
    · refine .inr ⟨positive,_,List.getLast?_concat,offset.symm,?_⟩
      split at count <;> omega
  · rename_i plain
    rw [if_neg plain,Option.toList_none,List.append_nil]
    rw [Option.toList_none,List.append_nil] at counted
    left
    omega

-- By induction on the cells still to come. The walk halts behind the first of them that
-- makes it know enough, and what it leaves unread then lies behind it.
theorem Follows.walk (follows : Follows span before ends s) (going : s.halts after = false)
    (joined : Joined s.offset rest stop) :
    ∃ met unread, ends ++ endsOf rest = met ++ unread ∧
      Follows span before met (s.walk span before after rest) ∧
        Halted span after stop met unread (s.walk span before after rest) := by
  induction rest generalizing ends s with
  | nil =>
    cases joined
    refine ⟨ends,[],rfl,follows,.atEnd rfl rfl (follows.few going)⟩
  | cons cell rest ih =>
    cases joined with
    | cons first forward single joined =>
      have next := follows.read_next first forward single
      rw [Search.walk]
      cases halted : (s.read span before cell).halts after with
      | true =>
        obtain ⟨inside,later⟩ := ends_later joined
        obtain ⟨passed,last⟩ := follows.enough going first next rfl halted
        refine ⟨_,_,?_,next,.enough passed inside later last⟩
        rw [endsOf_cons,List.append_assoc]
      | false =>
        obtain ⟨met,unread,split,reached,stops⟩ := ih next halted joined
        refine ⟨met,unread,?_,reached,stops⟩
        rw [endsOf_cons,← List.append_assoc]
        exact split

section Table

variable {source : List Char} {met unread : List LineEnd}

theorem walk_encoded (source : List Char) (span : Span) (before after : Nat) :
    ∃ met unread, lineEnds 0 source = met ++ unread ∧
      Follows span before met (initial.walk span before after (cells 0 (encoded source))) ∧
        Halted span after (byteLength source) met unread
          (initial.walk span before after (cells 0 (encoded source))) := by
  have joined := cells_joined 0 (encoded source)
  rw [length_encoded,Nat.zero_add] at joined
  have going : initial.halts after = false := rfl
  obtain ⟨met,unread,split,follows,stops⟩ := (follows_initial span before).walk going joined
  rw [List.nil_append,endsOf,cells_encoded] at split
  exact ⟨met,unread,split,follows,stops⟩

theorem Halted.bounds {size : Nat} (stops : Halted span after size met unread s) :
    span.last ≤ s.offset ↔ span.last ≤ size := by
  cases stops with
  | atEnd all offset few => rw [offset]
  | enough passed inside later last => omega

theorem Halted.lineAt_eq {size : Nat} (split : lineEnds 0 source = met ++ unread)
    (stops : Halted span after size met unread s) :
    (LineTable.ofText source).lineAt span.start = endedBefore span met := by
  have noneBefore : unread.countP (fun lineEnd => lineEnd.next ≤ span.start) = 0 := by
    rw [List.countP_eq_zero]
    intro lineEnd member
    cases stops with
    | atEnd all offset few =>
      rw [all] at member
      cases member
    | enough passed inside later last =>
      have behind := later lineEnd member
      have bounds := span_last span
      rw [decide_eq_true_eq]
      omega
  rw [LineTable.lineAt,LineTable.ends_ofText,split,List.countP_append,noneBefore,Nat.add_zero]
  rfl

theorem startOf_lineStarts (split : lineEnds 0 source = met ++ unread) {line : Nat} (inside : line ≤ met.length) :
    (lineStarts met)[line]? = some ((LineTable.ofText source).startOf line) := by
  cases line with
  | zero => rfl
  | succ line =>
    rw [lineStarts,List.getElem?_cons_succ,List.getElem?_map,LineTable.startOf,LineTable.ends_ofText,split,
      List.getElem?_append_left inside,List.getElem?_eq_getElem inside]
    rfl

theorem Follows.head_eq (split : lineEnds 0 source = met ++ unread) (follows : Follows span before met s)
    (positive : 0 < before) :
    s.starts.head?.getD 0 = (LineTable.ofText source).startOf (endedBefore span met - before) := by
  have below := endedBefore_le span met
  rw [follows.starts,List.head?_drop,List.getElem?_take]
  split
  · rw [startOf_lineStarts split (by omega)]
    rfl
  · have atFirst : endedBefore span met - before = 0 := by omega
    rw [atFirst]
    rfl

theorem Halted.offset_eq (split : lineEnds 0 source = met ++ unread)
    (stops : Halted span after (byteLength source) met unread s) (positive : 0 < after) :
    s.offset = (LineTable.ofText source).startOf ((LineTable.ofText source).stoppedBy span.last + after + 1) := by
  have both (ends : List LineEnd) :
      ends.length = ends.countP (·.stop ≤ span.last) + endedBehind span ends := by
    rw [endedBehind,List.length_eq_countP_add_countP fun lineEnd : LineEnd => decide (lineEnd.stop ≤ span.last)]
    simp
  rw [LineTable.startOf,LineTable.stoppedBy,LineTable.ends_ofText,split,List.countP_append]
  have counted := both met
  cases stops with
  | atEnd all offset few =>
    rw [all,List.append_nil,List.countP_nil,List.getElem?_eq_none (by omega),offset]
    rfl
  | enough passed inside later last =>
    have noneStopped : unread.countP (fun lineEnd => lineEnd.stop ≤ span.last) = 0 := by
      rw [List.countP_eq_zero]
      intro lineEnd member
      have behind := later lineEnd member
      rw [decide_eq_true_eq]
      omega
    rcases last with ⟨zero,_⟩ | ⟨_,lineEnd,final,next,count⟩
    · omega
    · have index : met.countP (fun lineEnd => lineEnd.stop ≤ span.last) + 0 + after = met.length - 1 := by omega
      rw [noneStopped,index,List.getElem?_append_left (by omega),← List.getLast?_eq_getElem?,final]
      exact next.symm

theorem Follows.column_eq (split : lineEnds 0 source = met ++ unread) (follows : Follows span before met s)
    (stops : Halted span 0 (byteLength source) met unread s) :
    s.column = (LineTable.ofText source).columnAt span.start := by
  have below := endedBefore_le span met
  have noneBehind : endedBehind span met = 0 := by
    cases stops with
    | atEnd all offset few => exact Nat.le_zero.mp few
    | enough passed inside later last =>
      rcases last with ⟨_,noneBehind⟩ | ⟨positive,_⟩
      · exact noneBehind
      · cases positive
  -- Behind the span it no longer matters where the line ends.
  have content : min span.start ((met[endedBefore span met]?.map LineEnd.stop).getD s.offset) =
      min span.start ((LineTable.ofText source).stopOf (endedBefore span met)) := by
    rw [LineTable.stopOf,LineTable.ends_ofText,split]
    rcases Nat.lt_or_eq_of_le below with inside | all
    · rw [List.getElem?_append_left inside,List.getElem?_eq_getElem inside]
      rfl
    · rw [all,List.getElem?_eq_none (Nat.le_refl _),List.getElem?_append_right (Nat.le_refl _),Nat.sub_self]
      cases stops with
      | atEnd all offset few =>
        rw [all,offset]
        rfl
      | enough passed inside later last =>
        have bounds := span_last span
        have reached : span.start ≤ s.offset := by omega
        rw [Option.map_none,Option.getD_none,Nat.min_eq_left reached]
        cases found : unread[0]? with
        | none => exact (Nat.min_eq_left (Nat.le_trans reached inside)).symm
        | some lineEnd =>
          have behind := later lineEnd (List.mem_of_getElem? found)
          exact (Nat.min_eq_left (Nat.le_trans reached behind.1)).symm
  rw [follows.column noneBehind,content,startOf_lineStarts split below,LineTable.columnAt,stops.lineAt_eq split]
  rfl

theorem found_place (source : List Char) (span : Span) :
    (found span 0 0 (encoded source)).map (fun place => (place.line,place.column)) =
      if span.last ≤ byteLength source then
        some ((LineTable.ofText source).lineAt span.start,(LineTable.ofText source).columnAt span.start)
      else none := by
  obtain ⟨met,unread,split,follows,stops⟩ := walk_encoded source span 0 0
  by_cases inside : span.last ≤ byteLength source
  · rw [found,if_pos (stops.bounds.mpr inside),if_pos inside,Option.map_some,stops.lineAt_eq split,
      ← follows.column_eq split stops]
    have line := follows.line
    rw [Nat.sub_zero] at line
    simp only [if_true,line]
  · rw [found,if_neg (mt stops.bounds.mp inside),if_neg inside,Option.map_none]

theorem found_window (source : List Char) (span : Span) {before after : Nat} (someBefore : 0 < before)
    (someAfter : 0 < after) :
    found span before after (encoded source) =
      if span.last ≤ byteLength source then
        some
          { start := (LineTable.ofText source).startOf ((LineTable.ofText source).lineAt span.start - before)
            stop := (LineTable.ofText source).startOf ((LineTable.ofText source).stoppedBy span.last + after + 1)
            line := (LineTable.ofText source).lineAt span.start - before
            column := 0 }
      else none := by
  obtain ⟨met,unread,split,follows,stops⟩ := walk_encoded source span before after
  have surrounded : before ≠ 0 := Nat.pos_iff_ne_zero.mp someBefore
  by_cases inside : span.last ≤ byteLength source
  · rw [found,if_pos (stops.bounds.mpr inside),if_pos inside,stops.lineAt_eq split,← stops.offset_eq split someAfter,
      ← follows.head_eq split someBefore,← follows.line,if_neg surrounded,if_neg surrounded]
  · rw [found,if_neg (mt stops.bounds.mp inside),if_neg inside]

end Table

end Search

theorem searchedExcerpt_eq (source : List Char) {span : Span} (ordered : span.start ≤ span.stop) :
    searchedExcerpt? source span = excerpt? source span := by
  have last : span.last = span.stop - 1 := by
    rw [Span.last,Span.length]
    omega
  have window := @Search.found_window source span 3 3 (by decide) (by decide)
  have place := Search.found_place source span
  rw [last] at window place
  by_cases inside : span.stop - 1 ≤ byteLength source
  · have covered : (LineTable.ofText source).covers span = true := decide_eq_true inside
    rw [if_pos inside] at window place
    obtain ⟨found,there,named⟩ := Option.map_eq_some_iff.mp place
    obtain ⟨line,column⟩ := Prod.mk.inj named
    rw [searchedExcerpt?,excerpt?,window,there,if_pos covered]
    simp only [Option.bind_eq_bind,Option.bind_some,line,column]
    rfl
  · have outside : ¬ (LineTable.ofText source).covers span = true := mt of_decide_eq_true inside
    rw [if_neg inside] at window
    rw [searchedExcerpt?,excerpt?,window,if_neg outside]
    rfl

end ScriptLexer
