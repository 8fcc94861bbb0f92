import Mathlib.Data.List.DropRight
import ScriptLexer.Diagnostic.LineTable
import ScriptLexer.Proofs.Text.Cut

namespace ScriptLexer

def isLineEnd (c : Char) : Bool := c = '\r' || c = '\n'

def loneReturns : List Char → Nat
  | '\r' :: '\n' :: rest => loneReturns rest
  | c :: rest => (if c = '\r' then 1 else 0) + loneReturns rest
  | [] => 0

def lastLine (text : List Char) : List Char := text.rtakeWhile (!isLineEnd ·)

-- A cut between the two characters of one line end.
def PartsReturn (front back : List Char) : Prop := front.getLast? = some '\r' ∧ back.head? = some '\n'

variable {front back text rest : List Char} {c : Char} {offset : Nat}

theorem byteLength_pair (rest : List Char) : byteLength ('\r' :: '\n' :: rest) = 2 + byteLength rest := by
  rw [byteLength_cons,byteLength_cons,← Nat.add_assoc]
  rfl

theorem PartsReturn.cons (parts : PartsReturn front back) (c : Char) : PartsReturn (c :: front) back := by
  refine ⟨?_,parts.2⟩
  rw [List.getLast?_cons,parts.1]
  rfl

theorem partsReturn_single : PartsReturn [c] rest ↔ ∃ after, c = '\r' ∧ rest = '\n' :: after := by
  constructor
  · intro parts
    obtain ⟨last,first⟩ := parts
    obtain ⟨after,same⟩ := List.head?_eq_some_iff.mp first
    exact ⟨after,Option.some.inj last,same⟩
  · intro both
    obtain ⟨after,rfl,rfl⟩ := both
    exact ⟨rfl,rfl⟩

theorem isLineEnd_iff : isLineEnd c = true ↔ c = '\r' ∨ c = '\n' := by
  rw [isLineEnd,Bool.or_eq_true,decide_eq_true_eq,decide_eq_true_eq]

theorem isLineEnd_size (ends : isLineEnd c = true) : c.utf8Size = 1 := by
  rcases isLineEnd_iff.mp ends with rfl | rfl <;> rfl

theorem lineEnds_single (whole : ¬ PartsReturn [c] rest) (offset : Nat) :
    lineEnds offset (c :: rest) =
      (if isLineEnd c then [⟨offset,offset + 1⟩] else []) ++ lineEnds (offset + c.utf8Size) rest := by
  have apart : ∀ after, c = '\r' → rest = '\n' :: after → False :=
    fun after isReturn feed => whole (partsReturn_single.mpr ⟨after,isReturn,feed⟩)
  rw [lineEnds.eq_2 offset c rest apart]
  by_cases ends : isLineEnd c = true
  · rw [if_pos ends,if_pos (isLineEnd_iff.mp ends),isLineEnd_size ends,List.singleton_append]
  · rw [if_neg ends,if_neg (mt isLineEnd_iff.mpr ends),List.nil_append]

-- A text is read by pairs of return and feed and by single characters.
theorem read_lines {motive : List Char → Prop} (nil : motive [])
    (pair : ∀ rest, motive rest → motive ('\r' :: '\n' :: rest))
    (single : ∀ c rest, ¬ PartsReturn [c] rest → motive rest → motive (c :: rest)) (text : List Char) :
    motive text := by
  induction text using loneReturns.induct with
  | case1 rest ih => exact pair rest ih
  | case2 c rest apart ih =>
    refine single c rest ?_ ih
    intro parts
    obtain ⟨after,isReturn,feed⟩ := partsReturn_single.mp parts
    exact apart after isReturn feed
  | case3 => exact nil

theorem not_partsReturn_nil : ¬ PartsReturn [] rest := fun parts => nomatch parts.1

theorem not_partsReturn_end : ¬ PartsReturn text [] := fun parts => nomatch parts.2

theorem loneReturns_single (whole : ¬ PartsReturn [c] rest) :
    loneReturns (c :: rest) = (if c = '\r' then 1 else 0) + loneReturns rest :=
  loneReturns.eq_2 c rest fun after isReturn feed => whole (partsReturn_single.mpr ⟨after,isReturn,feed⟩)

theorem lineEnds_length (offset : Nat) (text : List Char) :
    (lineEnds offset text).length = lineFeeds text + loneReturns text := by
  induction text using read_lines generalizing offset with
  | nil => rfl
  | pair rest ih =>
    have feeds : lineFeeds ('\r' :: '\n' :: rest) = lineFeeds rest + 1 := by simp [lineFeeds]
    rw [lineEnds.eq_1,loneReturns.eq_1,List.length_cons,ih,feeds]
    omega
  | single c rest whole ih =>
    rw [lineEnds_single whole,loneReturns_single whole,List.length_append,ih,lineFeeds,lineFeeds,List.count_cons]
    by_cases isReturn : c = '\r'
    · simp [isReturn,isLineEnd]
      omega
    · by_cases feed : c = '\n' <;> simp [isReturn,feed,isLineEnd]
      omega

theorem lineEnds_bounds {lineEnd : LineEnd} (member : lineEnd ∈ lineEnds offset text) :
    offset ≤ lineEnd.stop ∧ lineEnd.stop < lineEnd.next ∧ lineEnd.next ≤ offset + byteLength text := by
  induction text using read_lines generalizing offset with
  | nil => cases member
  | pair rest ih =>
    rw [lineEnds.eq_1] at member
    rw [byteLength_pair]
    rcases List.mem_cons.mp member with rfl | later
    · exact ⟨Nat.le_refl _,by simp,by simp⟩
    · have := ih later
      omega
  | single c rest whole ih =>
    have size := c.utf8Size_pos
    rw [lineEnds_single whole] at member
    rw [byteLength_cons]
    rcases List.mem_append.mp member with here | later
    · split at here
      · obtain rfl := List.mem_singleton.mp here
        exact ⟨Nat.le_refl _,Nat.lt_succ_self _,by simp; omega⟩
      · cases here
    · have := ih later
      omega

theorem lineEnds_ordered (offset : Nat) (text : List Char) :
    (lineEnds offset text).Pairwise fun one other => one.next ≤ other.stop := by
  induction text using read_lines generalizing offset with
  | nil => exact .nil
  | pair rest ih =>
    rw [lineEnds.eq_1,List.pairwise_cons]
    exact ⟨fun other member => (lineEnds_bounds member).1,ih _⟩
  | single c rest whole ih =>
    rw [lineEnds_single whole,List.pairwise_append]
    refine ⟨?_,ih _,?_⟩
    · split
      · exact List.pairwise_singleton _ _
      · exact .nil
    · intro one here other later
      have below := (lineEnds_bounds later).1
      have size := c.utf8Size_pos
      split at here
      · rw [List.mem_singleton.mp here]
        show offset + 1 ≤ other.stop
        omega
      · cases here

theorem partsReturn_cons (parts : PartsReturn (c :: front) back) :
    PartsReturn [c] (front ++ back) ∨ PartsReturn front back := by
  cases front with
  | nil => exact .inl parts
  | cons d front => exact .inr ⟨parts.1,parts.2⟩

theorem partsReturn_front (apart : ¬ PartsReturn [c] (front ++ back)) : ¬ PartsReturn [c] front := by
  intro parts
  obtain ⟨after,isReturn,rfl⟩ := partsReturn_single.mp parts
  exact apart (partsReturn_single.mpr ⟨after ++ back,isReturn,rfl⟩)

theorem partsReturn_append (whole : ¬ PartsReturn (c :: front) back) (apart : ¬ PartsReturn [c] front) :
    ¬ PartsReturn [c] (front ++ back) := by
  cases front with
  | nil => exact whole
  | cons d front =>
    intro parts
    exact apart ⟨parts.1,parts.2⟩

theorem lineEnds_append (whole : ¬ PartsReturn front back) (offset : Nat) :
    lineEnds offset (front ++ back) = lineEnds offset front ++ lineEnds (offset + byteLength front) back := by
  induction front using read_lines generalizing offset with
  | nil => rfl
  | pair rest ih =>
    have later : ¬ PartsReturn rest back := fun parts => whole ((parts.cons _).cons _)
    rw [List.cons_append,List.cons_append,lineEnds.eq_1,lineEnds.eq_1,ih later,byteLength_pair,Nat.add_assoc,
      List.cons_append]
  | single c rest apart ih =>
    have later : ¬ PartsReturn rest back := fun parts => whole (parts.cons c)
    rw [List.cons_append,lineEnds_single (partsReturn_append whole apart),lineEnds_single apart,ih later,
      byteLength_cons,List.append_assoc,Nat.add_assoc]

theorem loneReturns_append (whole : ¬ PartsReturn front back) :
    loneReturns (front ++ back) = loneReturns front + loneReturns back := by
  have both := congrArg List.length (lineEnds_append whole 0)
  rw [List.length_append,lineEnds_length,lineEnds_length,lineEnds_length,lineFeeds_append] at both
  omega

theorem loneReturns_last (last : text.getLast? = some '\r') : 0 < loneReturns text := by
  obtain ⟨front,rfl⟩ := List.getLast?_eq_some_iff.mp last
  have whole : ¬ PartsReturn front ['\r'] := fun parts => by cases parts.2
  rw [loneReturns_append whole]
  exact Nat.lt_of_lt_of_le (by decide : 0 < loneReturns ['\r']) (Nat.le_add_left _ _)

def lastStart (offset : Nat) (text : List Char) : Nat :=
  ((lineEnds offset text).getLast?.map LineEnd.next).getD offset

theorem lastStart_ended {lineEnd : LineEnd} {size : Nat}
    (read : lineEnds offset text = lineEnd :: lineEnds (offset + size) rest)
    (next : lineEnd.next = offset + size) : lastStart offset text = lastStart (offset + size) rest := by
  rw [lastStart,lastStart,read,List.getLast?_cons]
  cases (lineEnds (offset + size) rest).getLast? with
  | none => exact next
  | some last => rfl

theorem lastStart_plain (read : lineEnds offset text = lineEnds (offset + c.utf8Size) rest)
    (ended : lineEnds offset text ≠ []) : lastStart offset text = lastStart (offset + c.utf8Size) rest := by
  rw [lastStart,lastStart,← read,List.getLast?_eq_some_getLast ended]
  rfl

theorem lineEnds_cut {line : Nat} (inside : line ≤ (lineEnds offset text).length) :
    ∃ front back, text = front ++ back ∧ ¬ PartsReturn front back ∧ (lineEnds offset front).length = line ∧
      lastStart offset front = offset + byteLength front := by
  induction text using read_lines generalizing offset line with
  | nil =>
    obtain rfl := Nat.le_zero.mp inside
    exact ⟨[],[],rfl,not_partsReturn_nil,rfl,rfl⟩
  | pair rest ih =>
    cases line with
    | zero => exact ⟨[],_,rfl,not_partsReturn_nil,rfl,rfl⟩
    | succ line =>
      rw [lineEnds.eq_1] at inside
      obtain ⟨front,back,rfl,whole,count,start⟩ := ih (Nat.le_of_succ_le_succ inside)
      refine ⟨'\r' :: '\n' :: front,back,rfl,?_,?_,?_⟩
      · intro parts
        cases front with
        | nil => cases parts.1
        | cons d front => exact whole ⟨parts.1,parts.2⟩
      · rw [lineEnds.eq_1,List.length_cons,count]
      · rw [lastStart_ended (lineEnds.eq_1 offset front) rfl,start,byteLength_pair,Nat.add_assoc]
  | single c rest apart ih =>
    cases line with
    | zero => exact ⟨[],_,rfl,not_partsReturn_nil,rfl,rfl⟩
    | succ line =>
      rw [lineEnds_single apart] at inside
      by_cases ends : isLineEnd c = true
      · rw [if_pos ends,List.singleton_append] at inside
        obtain ⟨front,back,rfl,whole,count,start⟩ := ih (Nat.le_of_succ_le_succ inside)
        have read := lineEnds_single (partsReturn_front apart) offset
        rw [if_pos ends,List.singleton_append] at read
        refine ⟨c :: front,back,rfl,(partsReturn_cons · |>.elim apart whole),?_,?_⟩
        · rw [read,List.length_cons,count]
        · have size : c.utf8Size = 1 := isLineEnd_size ends
          rw [lastStart_ended read (by rw [size]),start,byteLength_cons,Nat.add_assoc]
      · rw [if_neg ends,List.nil_append] at inside
        obtain ⟨front,back,rfl,whole,count,start⟩ := ih inside
        have read := lineEnds_single (partsReturn_front apart) offset
        rw [if_neg ends,List.nil_append] at read
        refine ⟨c :: front,back,rfl,(partsReturn_cons · |>.elim apart whole),?_,?_⟩
        · rw [read,count]
        · have ended : lineEnds offset (c :: front) ≠ [] := by
            intro empty
            rw [read] at empty
            rw [empty] at count
            cases count
          rw [lastStart_plain read ended,start,byteLength_cons,Nat.add_assoc]

theorem lineEnds_none : lineEnds offset text = [] ↔ ∀ c ∈ text, isLineEnd c = false := by
  induction text using read_lines generalizing offset with
  | nil => exact ⟨fun _ c member => (nomatch member),fun _ => rfl⟩
  | pair rest ih =>
    rw [lineEnds.eq_1]
    constructor
    · intro empty
      cases empty
    · intro plain
      cases plain '\r' List.mem_cons_self
  | single c rest apart ih =>
    rw [lineEnds_single apart,List.append_eq_nil_iff,ih,List.forall_mem_cons]
    cases isLineEnd c <;> simp

theorem lastLine_plain (plain : ∀ c ∈ text, isLineEnd c = false) : lastLine text = text := by
  rw [lastLine,List.rtakeWhile_eq_self_iff]
  intro c member
  rw [plain c member]
  rfl

theorem lastLine_ended (ends : isLineEnd c = true) : lastLine (c :: rest) = lastLine rest := by
  have last : [c].takeWhile (!isLineEnd ·) = [] := by simp [ends]
  rw [lastLine,lastLine,List.rtakeWhile,List.rtakeWhile,List.reverse_cons,List.takeWhile_append]
  split
  · rename_i all
    rw [last,List.append_nil,(List.takeWhile_prefix _).eq_of_length all]
  · rfl

theorem lastLine_later (later : ∃ d ∈ rest, isLineEnd d = true) : lastLine (c :: rest) = lastLine rest := by
  obtain ⟨d,member,ends⟩ := later
  rw [lastLine,lastLine,List.rtakeWhile,List.rtakeWhile,List.reverse_cons,List.takeWhile_append,if_neg]
  intro all
  have whole := (List.takeWhile_prefix (!isLineEnd ·)).eq_of_length all
  have plain := List.takeWhile_eq_self_iff.mp whole d (List.mem_reverse.mpr member)
  rw [ends] at plain
  cases plain

theorem lastStart_add (offset : Nat) (text : List Char) :
    lastStart offset text + byteLength (lastLine text) = offset + byteLength text := by
  induction text using read_lines generalizing offset with
  | nil => rfl
  | pair rest ih =>
    rw [lastStart_ended (lineEnds.eq_1 offset rest) rfl,lastLine_ended rfl,lastLine_ended rfl,ih,byteLength_pair,
      Nat.add_assoc]
  | single c rest apart ih =>
    have read := lineEnds_single apart offset
    have shorter := ih (offset + c.utf8Size)
    rw [byteLength_cons,← Nat.add_assoc,← shorter]
    by_cases ends : isLineEnd c = true
    · rw [if_pos ends,List.singleton_append] at read
      rw [lastStart_ended read (by rw [isLineEnd_size ends]),lastLine_ended ends]
    · rw [if_neg ends,List.nil_append] at read
      by_cases empty : lineEnds offset (c :: rest) = []
      · have plain := lineEnds_none.mp empty
        have other : lineEnds (offset + c.utf8Size) rest = [] := read ▸ empty
        rw [lastLine_plain plain,lastLine_plain fun d member => plain d (List.mem_cons_of_mem c member),lastStart,
          lastStart,empty,other,byteLength_cons,← Nat.add_assoc]
        rfl
      · have later : ∃ d ∈ rest, isLineEnd d = true := by
          by_contra plain
          rw [read,lineEnds_none] at empty
          refine empty fun d member => ?_
          exact eq_false_of_ne_true fun ends => plain ⟨d,member,ends⟩
        rw [lastStart_plain read empty,lastLine_later later]

theorem begins_later {ends : List LineEnd} (ordered : ends.Pairwise fun one other => one.stop ≤ other.stop)
    {lineEnd : LineEnd} {last index : Nat} (found : ends[index]? = some lineEnd)
    (counted : ends.countP (·.stop ≤ last) ≤ index) : last < lineEnd.stop := by
  induction ends generalizing index with
  | nil => cases found
  | cons first ends ih =>
    obtain ⟨below,rest⟩ := List.pairwise_cons.mp ordered
    by_contra early
    have begun : decide (first.stop ≤ last) = true := by
      cases index with
      | zero =>
        obtain rfl := Option.some.inj found
        exact decide_eq_true (Nat.le_of_not_lt early)
      | succ index =>
        exact decide_eq_true (Nat.le_trans (below lineEnd (List.mem_of_getElem? found)) (Nat.le_of_not_lt early))
    rw [List.countP_cons,if_pos begun] at counted
    cases index with
    | zero => cases counted
    | succ index => exact early (ih rest found (Nat.le_of_succ_le_succ counted))

namespace LineTable

theorem startOf_inside {table : LineTable} {line : Nat} (inside : line ≤ table.ends.length) :
    table.startOf line = ((table.ends.take line).getLast?.map LineEnd.next).getD 0 := by
  cases line with
  | zero => rfl
  | succ line =>
    rw [startOf,List.take_add_one,List.getElem?_eq_getElem inside,Option.toList_some,List.getLast?_concat]
    rfl

theorem startOf_outside {table : LineTable} {line : Nat} (outside : table.ends.length < line) :
    table.startOf line = table.size := by
  obtain ⟨line,rfl⟩ := Nat.exists_eq_add_of_lt outside
  rw [startOf,List.getElem?_eq_none (Nat.le_add_right _ _)]
  rfl

theorem ends_ofText (source : List Char) : (ofText source).ends = lineEnds 0 source := rfl

theorem startOf_front (whole : ¬ PartsReturn front back) :
    (ofText (front ++ back)).startOf (lineEnds 0 front).length = lastStart 0 front := by
  have ends : (ofText (front ++ back)).ends = lineEnds 0 front ++ lineEnds (0 + byteLength front) back :=
    lineEnds_append whole 0
  rw [startOf_inside (by rw [ends,List.length_append]; exact Nat.le_add_right _ _),ends,List.take_left]
  rfl

theorem lineAt_front (whole : ¬ PartsReturn front back) :
    (ofText (front ++ back)).lineAt (byteLength front) = (lineEnds 0 front).length := by
  have before : ∀ lineEnd ∈ lineEnds 0 front, decide (lineEnd.next ≤ byteLength front) = true := by
    intro lineEnd member
    have := lineEnds_bounds member
    exact decide_eq_true (by omega)
  have behind : ∀ lineEnd ∈ lineEnds (0 + byteLength front) back,
      ¬ decide (lineEnd.next ≤ byteLength front) = true := by
    intro lineEnd member
    have := lineEnds_bounds member
    rw [decide_eq_true_eq]
    omega
  rw [lineAt,ends_ofText,lineEnds_append whole,List.countP_append,List.countP_eq_length.mpr before,
    List.countP_eq_zero.mpr behind,Nat.add_zero]

theorem columnAt_front (whole : ¬ PartsReturn front back) :
    (ofText (front ++ back)).columnAt (byteLength front) = byteLength (lastLine front) := by
  have stop : byteLength front ≤ (ofText (front ++ back)).stopOf (lineEnds 0 front).length := by
    rw [stopOf,ends_ofText,lineEnds_append whole,List.getElem?_append_right (Nat.le_refl _),Nat.sub_self]
    cases first : (lineEnds (0 + byteLength front) back)[0]? with
    | none => exact byteLength_le_append front back
    | some lineEnd =>
      have := lineEnds_bounds (List.mem_of_getElem? first)
      show byteLength front ≤ lineEnd.stop
      omega
  have start := lastStart_add 0 front
  rw [columnAt,lineAt_front whole,startOf_front whole,Nat.min_eq_left stop]
  omega

theorem startOf_cut (source : List Char) (line : Nat) :
    ∃ front back, source = front ++ back ∧ ¬ PartsReturn front back ∧
      byteLength front = (ofText source).startOf line ∧
      (lineEnds 0 front).length = min line (lineEnds 0 source).length := by
  by_cases inside : line ≤ (lineEnds 0 source).length
  · obtain ⟨front,back,rfl,whole,count,start⟩ := lineEnds_cut inside
    refine ⟨front,back,rfl,whole,?_,?_⟩
    · rw [← count,startOf_front whole,start,Nat.zero_add]
    · rw [count,Nat.min_eq_left inside]
  · have outside := Nat.lt_of_not_le inside
    refine ⟨source,[],(List.append_nil source).symm,not_partsReturn_end,?_,?_⟩
    · rw [startOf_outside outside]
      rfl
    · rw [Nat.min_eq_right (Nat.le_of_lt outside)]

theorem startOf_le {line : Nat} (whole : ¬ PartsReturn front back) (inside : line ≤ (lineEnds 0 front).length) :
    (ofText (front ++ back)).startOf line ≤ byteLength front := by
  have ends : (ofText (front ++ back)).ends = lineEnds 0 front ++ lineEnds (0 + byteLength front) back :=
    lineEnds_append whole 0
  rw [startOf_inside (by rw [ends,List.length_append]; omega),ends,List.take_append_of_le_length inside]
  cases last : ((lineEnds 0 front).take line).getLast? with
  | none => exact Nat.zero_le _
  | some lineEnd =>
    have := lineEnds_bounds (List.mem_of_mem_take (List.mem_of_getLast? last))
    show lineEnd.next ≤ byteLength front
    omega

theorem startOf_later {source : List Char} {last line : Nat} (inside : last < byteLength source)
    (counted : (ofText source).stoppedBy last ≤ line) : last < (ofText source).startOf (line + 1) := by
  rw [startOf]
  cases found : (ofText source).ends[line]? with
  | none => exact inside
  | some lineEnd =>
    have ordered : (lineEnds 0 source).Pairwise fun one other => one.stop ≤ other.stop := by
      refine (lineEnds_ordered 0 source).imp_of_mem ?_
      intro one other member _ below
      have := lineEnds_bounds member
      omega
    have later := begins_later ordered found counted
    have bounds := lineEnds_bounds (List.mem_of_getElem? found)
    show last < lineEnd.next
    omega

end LineTable

end ScriptLexer
