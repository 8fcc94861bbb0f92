import Mathlib.Data.List.Forall2
import ScriptLexer.Command.Run
import ScriptLexer.Proofs.Scan.Joined

-- What is printed, line by line. The filter on the way to a pipe shows no control
-- character but the line feed, so every entry without one is one line of the output.
namespace ScriptLexer

def IsGraphic (c : Char) : Prop :=
  0x20 ≤ c.toNat ∧ ¬ (0x7f ≤ c.toNat ∧ c.toNat ≤ 0x9f) ∧ c.toNat ≠ 0x2028 ∧ c.toNat ≠ 0x2029

def IsPrintable (text : String) : Prop := ∀ c ∈ text.toList, c ≠ '\n' → IsGraphic c

theorem isGraphic_iff {c : Char} : IsGraphic c ↔ isControl c = false := by
  simp only [IsGraphic,isControl,Bool.or_eq_false_iff,Bool.and_eq_false_iff,decide_eq_false_iff_not]
  omega

def upperDigits : List Char := ['0','1','2','3','4','5','6','7','8','9','A','B','C','D','E','F']

def fourDigits (n : Nat) : List Char :=
  [n / 0x1000,n / 0x100 % 0x10,n / 0x10 % 0x10,n % 0x10].map (upperDigits.getD · '0')

-- What stands in the output for a character: itself, or for a control character the letter
-- that is typed for it or the number that it has.
inductive Filtered (c : Char) : List Char → Prop where
  | kept (plain : c = '\n' ∨ IsGraphic c) : Filtered c [c]
  | typed {letter : Char} (control : c.toNat < 0x20) (notFeed : c ≠ '\n')
      (written : letter.toNat = c.toNat + 0x40) : Filtered c ['^',letter]
  | numbered (control : (0x7f ≤ c.toNat ∧ c.toNat ≤ 0x9f) ∨ c.toNat = 0x2028 ∨ c.toNat = 0x2029) :
      Filtered c (['U','+'] ++ fourDigits c.toNat)

def PassesAs (text shown : String) : Prop :=
  ∃ parts, List.Forall₂ Filtered text.toList parts ∧ shown.toList = parts.flatten

theorem codePoint_four {c : Char}
    (control : (0x7f ≤ c.toNat ∧ c.toNat ≤ 0x9f) ∨ c.toNat = 0x2028 ∨ c.toNat = 0x2029) :
    codePoint c = ['U','+'] ++ fourDigits c.toNat := by
  have all : ∀ n ∈ List.range' 0x7f 33 ++ [0x2028,0x2029],
      ((Nat.toDigits 16 n).map Char.toUpper).leftpad 4 '0' = fourDigits n := by decide +kernel
  have listed : c.toNat ∈ List.range' 0x7f 33 ++ [0x2028,0x2029] := by
    simp only [List.mem_append,List.mem_range'_1,List.mem_cons,List.not_mem_nil,or_false]
    omega
  exact congrArg ('U' :: '+' :: ·) (all _ listed)

theorem typed_letter {c : Char} (control : c.toNat < 0x20) : (Char.ofNat (c.toNat + 64)).toNat = c.toNat + 0x40 := by
  have all : ∀ n < 0x20, (Char.ofNat (n + 64)).toNat = n + 0x40 := by decide
  exact all _ control

theorem filtered_iff {c : Char} {shown : List Char} : Filtered c shown ↔ shown = visibleChar c := by
  have kept : (c = '\n' ∨ ¬ isControl c = true) ↔ c = '\n' ∨ IsGraphic c := by
    rw [Bool.not_eq_true,isGraphic_iff]
  unfold visibleChar
  constructor
  · intro filtered
    cases filtered with
    | kept plain => rw [if_pos (kept.mpr plain)]
    | typed control notFeed written =>
      have apart : ¬ (c = '\n' ∨ IsGraphic c) := fun plain => absurd (plain.resolve_left notFeed).1 (by omega)
      rw [if_neg (mt kept.mp apart),if_pos control,Char.toNat_inj.mp (written.trans (typed_letter control).symm)]
    | numbered control =>
      have apart : ¬ (c = '\n' ∨ IsGraphic c) := by
        rintro (rfl | plain)
        · exact absurd control (by decide)
        · unfold IsGraphic at plain
          omega
      rw [if_neg (mt kept.mp apart),if_neg (by omega),codePoint_four control]
  · rintro rfl
    split_ifs with plain below
    · exact .kept (kept.mp plain)
    · exact .typed below (fun feed => plain (.inl feed)) (typed_letter below)
    · have control : (0x7f ≤ c.toNat ∧ c.toNat ≤ 0x9f) ∨ c.toNat = 0x2028 ∨ c.toNat = 0x2029 := by
        rw [kept,not_or,IsGraphic] at plain
        omega
      rw [codePoint_four control]
      exact .numbered control

theorem fourDigits_upper {n : Nat} {d : Char} (member : d ∈ fourDigits n) : d ∈ upperDigits := by
  obtain ⟨place,_,rfl⟩ := List.mem_map.mp member
  rw [List.getD_eq_getElem?_getD]
  cases found : upperDigits[place]? with
  | none => exact List.mem_cons_self
  | some digit => exact List.mem_of_getElem? found

theorem Filtered.graphic {c d : Char} {shown : List Char} (filtered : Filtered c shown) (member : d ∈ shown) :
    (c = '\n' ∧ d = '\n') ∨ IsGraphic d := by
  cases filtered with
  | kept plain =>
    obtain rfl := List.mem_singleton.mp member
    exact plain.imp_left fun feed => ⟨feed,feed⟩
  | typed control notFeed written =>
    right
    rcases List.mem_cons.mp member with rfl | last
    · simp [IsGraphic]
    · obtain rfl := List.mem_singleton.mp last
      unfold IsGraphic
      omega
  | numbered control =>
    have all : ∀ mark ∈ ['U','+'] ++ upperDigits, IsGraphic mark := by simp [upperDigits,IsGraphic]
    right
    rcases List.mem_append.mp member with opening | digit
    · exact all d (List.mem_append_left _ opening)
    · exact all d (List.mem_append_right _ (fourDigits_upper digit))

theorem forall_filtered {text : List Char} {parts : List (List Char)} :
    List.Forall₂ Filtered text parts ↔ parts = text.map visibleChar := by
  induction text generalizing parts with
  | nil => exact List.forall₂_nil_left_iff
  | cons c text ih =>
    simp only [List.forall₂_cons_left_iff,filtered_iff,ih,List.map_cons]
    constructor
    · rintro ⟨_,_,rfl,rfl,rfl⟩
      rfl
    · rintro rfl
      exact ⟨_,_,rfl,rfl,rfl⟩

theorem passesAs_iff {text shown : String} : PassesAs text shown ↔ shown = visible text := by
  simp only [PassesAs,forall_filtered,exists_eq_left,visible,← List.flatMap_def]
  constructor
  · intro same
    rw [← same,String.ofList_toList]
  · rintro rfl
    exact String.toList_ofList

theorem visible_printable (text : String) : IsPrintable (visible text) := by
  intro d member other
  rw [visible,String.toList_ofList] at member
  obtain ⟨c,_,shown⟩ := List.mem_flatMap.mp member
  exact ((filtered_iff.mpr rfl).graphic shown).resolve_left fun feed => other feed.2

def seenEntry (entry : String) : List Char := entry.toList.flatMap visibleChar

theorem seenEntry_single {entry : String} (single : '\n' ∉ entry.toList) : '\n' ∉ seenEntry entry := by
  intro feed
  obtain ⟨c,present,shown⟩ := List.mem_flatMap.mp feed
  rcases (filtered_iff.mpr rfl).graphic shown with ⟨rfl,_⟩ | graphic
  · exact single present
  · exact absurd graphic.1 (by decide)

theorem seenEntry_append (front back : String) : seenEntry (front ++ back) = seenEntry front ++ seenEntry back := by
  rw [seenEntry,String.toList_append,List.flatMap_append]
  rfl

theorem printed_entries (source : List Char) :
    (printed source).toList = (entries source).flatMap fun entry => seenEntry entry ++ ['\n'] := by
  rw [printed,visible,String.toList_ofList,String.toList_join,List.flatMap_map,List.flatMap_assoc]
  congr 1
  funext entry
  have ended : (entry ++ "\n").toList = entry.toList ++ ['\n'] := String.toList_append
  rw [ended,List.flatMap_append]
  rfl

-- The lines of an output; behind the last line feed there is one more, which is empty.
def outputLines (text : String) : List (List Char) := text.toList.splitOn '\n'

theorem outputLines_rows {rows : List (List Char)} (single : ∀ row ∈ rows, '\n' ∉ row) {text : String}
    (written : text.toList = rows.flatMap (· ++ ['\n'])) : outputLines text = rows ++ [[]] := by
  have joined := joined_text rows []
  rw [List.append_nil] at joined
  rw [outputLines,written,← joined]
  refine List.splitOn_intercalate '\n' ?_ (List.concat_ne_nil [] rows)
  intro row member
  rcases List.mem_append.mp member with inside | last
  · exact single row inside
  · rw [List.mem_singleton.mp last]
    exact List.not_mem_nil

end ScriptLexer
