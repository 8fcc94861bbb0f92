import Mathlib.Data.List.Basic
import ScriptLexer.Diagnostic.Excerpt
import ScriptLexer.Proofs.Diagnostic.LineEnds
import ScriptLexer.Proofs.Segment.Boundary

namespace ScriptLexer

variable {text line after : List Char} {number start : Nat}

theorem notFeed_of_plain (plain : '\n' ∉ line) : ∀ c ∈ line, (c != '\n') = true := by
  intro c member
  rw [bne_iff_ne]
  rintro rfl
  exact plain member

theorem shownLines_nil (number start : Nat) : shownLines number start [] = [] := by
  rw [shownLines]
  rfl

theorem shownLines_feed (number start : Nat) (plain : '\n' ∉ line) (after : List Char) :
    shownLines number start (line ++ '\n' :: after) =
      ⟨number,start,byteLength line + 1,withoutReturn line⟩ ::
        shownLines (number + 1) (start + byteLength line + 1) after := by
  have inside := notFeed_of_plain plain
  have stops : Stops (· != '\n') ('\n' :: after) := stops_cons.mpr rfl
  have taken := takeWhile_stops inside stops
  have dropped := dropWhile_stops inside stops
  rw [shownLines]
  split
  · rename_i behind same
    rw [dropped] at same
    obtain ⟨_,rfl⟩ := List.cons.inj same
    rw [taken]
  · rename_i empty
    rw [dropped] at empty
    cases empty

theorem shownLines_last (number start : Nat) (plain : '\n' ∉ text) (present : text ≠ []) :
    shownLines number start text =
      [⟨if text.getLast? = some '\r' then number - 1 else number,start,byteLength text,text⟩] := by
  have feedless : text.dropWhile (· != '\n') = [] := List.dropWhile_eq_nil_iff.mpr (notFeed_of_plain plain)
  rw [shownLines]
  split
  · rename_i same
    rw [feedless] at same
    cases same
  · rw [List.isEmpty_eq_false_iff.mpr present]
    rfl

theorem read_rows {motive : List Char → Prop} (nil : motive [])
    (last : ∀ text, text ≠ [] → '\n' ∉ text → motive text)
    (row : ∀ line after, '\n' ∉ line → motive after → motive (line ++ '\n' :: after)) (text : List Char) :
    motive text := by
  induction size : text.length using Nat.strongRecOn generalizing text with
  | ind size ih =>
    by_cases feed : '\n' ∈ text
    · obtain ⟨line,after,rfl,plain⟩ := List.eq_append_cons_of_mem feed
      refine row line after plain (ih after.length ?_ after rfl)
      rw [← size,List.length_append,List.length_cons]
      omega
    · by_cases none : text = []
      · exact none ▸ nil
      · exact last text none feed

theorem byteLength_row (line after : List Char) :
    byteLength (line ++ '\n' :: after) = byteLength line + 1 + byteLength after := by
  rw [byteLength_append,byteLength_cons,Nat.add_assoc]
  rfl

theorem lineFeeds_row (plain : '\n' ∉ line) (after : List Char) :
    lineFeeds (line ++ '\n' :: after) = 1 + lineFeeds after := by
  rw [lineFeeds,List.count_append,List.count_eq_zero.mpr plain,Nat.zero_add,List.count_cons_self,Nat.add_comm]
  rfl

def lineEndings : List (List Char) := [[],['\n'],['\r','\n']]

theorem lineEndings_end : ∀ ending ∈ lineEndings, ending.all isLineEnd = true := by decide

theorem withoutReturn_ending (line : List Char) :
    ∃ ending ∈ lineEndings, line ++ ['\n'] = withoutReturn line ++ ending := by
  rw [withoutReturn]
  split
  · rename_i last
    obtain ⟨front,rfl⟩ := List.getLast?_eq_some_iff.mp last
    refine ⟨['\r','\n'],by decide,?_⟩
    rw [List.dropLast_concat,List.append_assoc]
    rfl
  · exact ⟨['\n'],by decide,rfl⟩

theorem mem_withoutReturn {c : Char} (member : c ∈ withoutReturn line) : c ∈ line := by
  rw [withoutReturn] at member
  split at member
  · exact List.dropLast_subset line member
  · exact member

-- A shown line lies in the text where it says, with its line end, and has the number of
-- the feeds before it. Only where the text stops in a return is the last number another.
theorem shownLines_lie {shown : ShownLine} (member : shown ∈ shownLines number start text) :
    ∃ front ending back, ending ∈ lineEndings ∧ text = front ++ (shown.text ++ ending) ++ back ∧
      shown.start = start + byteLength front ∧ shown.size = byteLength (shown.text ++ ending) ∧
      '\n' ∉ shown.text ∧ (text.getLast? ≠ some '\r' → shown.number = number + lineFeeds front) := by
  induction text using read_rows generalizing number start with
  | nil =>
    rw [shownLines_nil] at member
    cases member
  | last text present plain =>
    rw [shownLines_last number start plain present] at member
    obtain rfl := List.mem_singleton.mp member
    refine ⟨[],[],[],by decide,?_,rfl,?_,plain,?_⟩
    · rw [List.nil_append,List.append_nil,List.append_nil]
    · rw [List.append_nil]
    · intro other
      exact if_neg other
  | row line after plain ih =>
    rw [shownLines_feed number start plain] at member
    rcases List.mem_cons.mp member with rfl | later
    · obtain ⟨ending,listed,whole⟩ := withoutReturn_ending line
      refine ⟨[],ending,after,listed,?_,rfl,?_,fun feed => plain (mem_withoutReturn feed),fun _ => rfl⟩
      · rw [List.nil_append,← whole,List.append_assoc]
        rfl
      · rw [← whole,byteLength_append]
        rfl
    · obtain ⟨front,ending,back,listed,rfl,place,size,single,count⟩ := ih later
      refine ⟨line ++ '\n' :: front,ending,back,listed,?_,?_,size,single,?_⟩
      · simp only [List.append_assoc,List.cons_append]
      · rw [place,byteLength_row]
        omega
      · intro other
        rw [lineFeeds_row plain,count,Nat.add_assoc]
        intro last
        refine other ?_
        rw [List.getLast?_append,List.getLast?_cons,last]
        rfl

theorem shownLines_cover {offset : Nat} (begun : start ≤ offset) (below : offset < start + byteLength text) :
    ∃ shown ∈ shownLines number start text, shown.start ≤ offset ∧ offset < shown.stop := by
  induction text using read_rows generalizing number start with
  | nil =>
    rw [byteLength_nil] at below
    omega
  | last text present plain =>
    rw [shownLines_last number start plain present]
    exact ⟨_,List.mem_singleton_self _,begun,below⟩
  | row line after plain ih =>
    rw [shownLines_feed number start plain]
    rw [byteLength_row] at below
    by_cases here : offset < start + byteLength line + 1
    · exact ⟨_,List.mem_cons_self,begun,here⟩
    · obtain ⟨shown,member,bounds⟩ : ∃ shown ∈ shownLines (number + 1) (start + byteLength line + 1) after,
          shown.start ≤ offset ∧ offset < shown.stop := ih (Nat.le_of_not_lt here) (by omega)
      exact ⟨shown,List.mem_cons_of_mem _ member,bounds⟩

theorem fronts_nested {front front' back back' : List Char} (same : front ++ back = front' ++ back')
    (below : byteLength front ≤ byteLength front') : ∃ mid, front' = front ++ mid ∧ back = mid ++ back' := by
  rcases List.append_eq_append_iff.mp same with ⟨mid,later,rest⟩ | ⟨mid,later,rest⟩
  · exact ⟨mid,later,rest⟩
  · have empty : mid = [] := by
      rw [later,byteLength_append] at below
      have := length_le_byteLength mid
      exact List.length_eq_zero_iff.mp (by omega)
    rw [empty,List.append_nil] at later
    rw [empty,List.nil_append] at rest
    exact ⟨[],by rw [later,List.append_nil],rest.symm⟩

theorem shownLines_number {before behind : List Char} {c : Char} {shown : ShownLine} (plain : isLineEnd c = false)
    (last : (before ++ c :: behind).getLast? ≠ some '\r')
    (member : shown ∈ shownLines number start (before ++ c :: behind))
    (begins : shown.start ≤ start + byteLength before) (stops : start + byteLength before < shown.stop) :
    shown.number = number + lineFeeds before := by
  obtain ⟨front,ending,back,listed,whole,place,size,single,count⟩ := shownLines_lie member
  rw [ShownLine.stop,place,size] at stops
  rw [place] at begins
  rw [List.append_assoc] at whole
  obtain ⟨mid,rfl,held⟩ := fronts_nested whole.symm (by omega)
  rw [byteLength_append] at stops
  -- The character stands in the line, so what is before it in the line is all text.
  obtain ⟨more,inside,rest⟩ := fronts_nested held.symm (by omega)
  have next : c ∈ more := by
    cases more with
    | nil =>
      rw [inside,List.append_nil] at stops
      omega
    | cons d more =>
      rw [(List.cons.inj rest).1]
      exact List.mem_cons_self
  have feeds : lineFeeds mid = 0 := by
    rw [lineFeeds,List.count_eq_zero]
    intro feed
    rcases List.append_eq_append_iff.mp inside with ⟨left,_,ended⟩ | ⟨left,held,_⟩
    · have ends : isLineEnd c = true := by
        refine List.all_eq_true.mp (lineEndings_end ending listed) c ?_
        rw [ended]
        exact List.mem_append_right left next
      rw [plain] at ends
      cases ends
    · exact single (held ▸ List.mem_append_left left feed)
  rw [count last,lineFeeds_append,feeds,Nat.add_zero]

end ScriptLexer
