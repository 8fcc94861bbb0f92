import Mathlib.Data.List.Basic
import ScriptLexer.Diagnostic.Excerpt
import ScriptLexer.Proofs.Diagnostic.LineEnds

-- The lines around a span, found by one walk over the bytes of the source. The walk knows
-- no table of lines: it keeps the starts of the last few lines in a queue, and once the
-- span has passed it counts line ends until there are enough. That it finds what the table
-- of lines says is proved of it.
namespace ScriptLexer

def encoded (text : List Char) : List UInt8 := text.flatMap String.utf8EncodeChar

structure Cell where
  first : Nat
  next : Nat
  ends : Bool

def cells (offset : Nat) : List UInt8 → List Cell
  | 13 :: 10 :: rest => ⟨offset,offset + 2,true⟩ :: cells (offset + 2) rest
  | byte :: rest => ⟨offset,offset + 1,byte = 13 ∨ byte = 10⟩ :: cells (offset + 1) rest
  | [] => []

-- Where the walk is, the lines that have left the queue, the bytes read of the current
-- line, the starts in the queue and the start of the current line. Behind the span: the
-- line ends counted there, the first of them apart.
structure Search where
  offset : Nat
  line : Nat
  column : Nat
  starts : List Nat
  current : Nat
  behind : Nat
  passed : Bool
  ended : Bool

structure Found where
  start : Nat
  stop : Nat
  line : Nat
  column : Nat

def Span.last (span : Span) : Nat := span.start + span.length - 1

namespace Search

def initial : Search := ⟨0,0,0,[],0,0,false,false⟩

variable (span : Span) (before after : Nat)

-- A line that ends before the span goes into the queue, from which the oldest line falls
-- out. A line that ends once the span has passed is counted.
def endLine (s : Search) (next : Nat) : Search :=
  if next ≤ span.start then
    let starts := s.starts ++ [s.current]
    if before < starts.length then
      {s with column := 0,current := next,line := s.line + 1,starts := starts.tail}
    else {s with column := 0,current := next,starts := starts}
  else if span.start + (span.length - 1) < next ∧ s.passed then
    {s with column := 0,current := next,behind := if s.ended then s.behind + 1 else s.behind,ended := true}
  else {s with current := next}

def readByte (s : Search) (next : Nat) : Search :=
  if next ≤ span.start then {s with column := s.column + 1} else s

def read (s : Search) (cell : Cell) : Search :=
  let s := if cell.ends then s.endLine span before cell.next else s.readByte span cell.next
  {s with offset := cell.next,passed := s.passed || span.last < cell.next}

def halts (s : Search) : Bool := s.passed && after ≤ s.behind

def walk (s : Search) : List Cell → Search
  | [] => s
  | cell :: rest =>
    let t := s.read span before cell
    if t.halts after then t else walk t rest

-- A column is found only where no lines before the span are asked for.
def found (bytes : List UInt8) : Option Found :=
  let s := initial.walk span before after (cells 0 bytes)
  if span.last ≤ s.offset then
    some
      { start := s.starts.head?.getD (if before = 0 then span.start else 0)
        stop := s.offset
        line := s.line
        column := if before = 0 then s.column else 0 }
  else none

end Search

def searchedExcerpt? (source : List Char) (span : Span) : Option Excerpt := do
  let shown ← Search.found span 3 3 (encoded source)
  let place ← Search.found span 0 0 (encoded source)
  return {
    line := place.line + 1
    column := place.column + 1
    lines := shownLines (shown.line + 1) shown.start (slice source shown.start shown.stop) }

def Cell.lineEnd? (cell : Cell) : Option LineEnd := if cell.ends then some ⟨cell.first,cell.next⟩ else none

inductive Joined : Nat → List Cell → Nat → Prop where
  | nil (offset : Nat) : Joined offset [] offset
  | cons {offset stop : Nat} {cell : Cell} {rest : List Cell} (first : cell.first = offset)
      (forward : cell.first < cell.next) (single : cell.ends = false → cell.next = cell.first + 1)
      (later : Joined cell.next rest stop) : Joined offset (cell :: rest) stop

theorem cells_joined (offset : Nat) (bytes : List UInt8) :
    Joined offset (cells offset bytes) (offset + bytes.length) := by
  induction offset, bytes using cells.induct with
  | case1 offset rest ih =>
    rw [cells.eq_1,List.length_cons,List.length_cons]
    refine .cons rfl (by simp) (fun plain => by cases plain) ?_
    rw [Nat.add_assoc,Nat.add_comm 1 1,← Nat.add_assoc,Nat.add_right_comm]
    exact ih
  | case2 offset byte rest apart ih =>
    rw [cells.eq_2 offset byte rest apart,List.length_cons]
    refine .cons rfl (Nat.lt_succ_self _) (fun _ => rfl) ?_
    rw [Nat.add_comm rest.length,← Nat.add_assoc]
    exact ih
  | case3 offset => exact .nil offset

theorem length_encoded (text : List Char) : (encoded text).length = byteLength text := by
  induction text with
  | nil => rfl
  | cons c text ih =>
    rw [encoded,List.flatMap_cons,List.length_append,String.length_utf8EncodeChar,byteLength_cons,← ih]
    rfl

theorem plain_bytes {c : Char} (plain : isLineEnd c = false) :
    ∀ byte ∈ String.utf8EncodeChar c, byte ≠ 13 ∧ byte ≠ 10 := by
  have other : c.val.toNat ≠ 13 ∧ c.val.toNat ≠ 10 := by
    constructor
    · intro same
      obtain rfl : c = '\r' := Char.ext (UInt32.toNat.inj same)
      cases plain
    · intro same
      obtain rfl : c = '\n' := Char.ext (UInt32.toNat.inj same)
      cases plain
  intro byte member
  have value : byte.toNat ≠ 13 ∧ byte.toNat ≠ 10 := by
    unfold String.utf8EncodeChar at member
    dsimp only at member
    split at member
    · rw [List.mem_singleton.mp member,UInt8.toNat_ofNat']
      omega
    · split at member
      · simp only [List.mem_cons,List.not_mem_nil,or_false] at member
        rcases member with rfl | rfl <;> rw [UInt8.toNat_ofNat'] <;> omega
      · split at member
        · simp only [List.mem_cons,List.not_mem_nil,or_false] at member
          rcases member with rfl | rfl | rfl <;> rw [UInt8.toNat_ofNat'] <;> omega
        · simp only [List.mem_cons,List.not_mem_nil,or_false] at member
          rcases member with rfl | rfl | rfl | rfl <;> rw [UInt8.toNat_ofNat'] <;> omega
  exact ⟨fun same => value.1 (congrArg UInt8.toNat same),fun same => value.2 (congrArg UInt8.toNat same)⟩

theorem encoded_feed {text : List Char} {bytes : List UInt8} (feed : encoded text = 10 :: bytes) :
    ∃ after, text = '\n' :: after := by
  cases text with
  | nil => cases feed
  | cons c text =>
    rw [encoded,List.flatMap_cons] at feed
    cases ends : isLineEnd c with
    | true =>
      rcases isLineEnd_iff.mp ends with rfl | rfl
      · cases feed
      · exact ⟨text,rfl⟩
    | false =>
      have nonempty : String.utf8EncodeChar c ≠ [] := String.utf8EncodeChar_ne_nil
      obtain ⟨byte,bytes,written⟩ := List.exists_cons_of_ne_nil nonempty
      rw [written,List.cons_append] at feed
      exact absurd (List.cons.inj feed).1 (plain_bytes ends byte (written ▸ List.mem_cons_self)).2

theorem cells_plain {front : List UInt8} (plain : ∀ byte ∈ front, byte ≠ 13 ∧ byte ≠ 10) (offset : Nat)
    (back : List UInt8) :
    (cells offset (front ++ back)).filterMap Cell.lineEnd? =
      (cells (offset + front.length) back).filterMap Cell.lineEnd? := by
  induction front generalizing offset with
  | nil => rfl
  | cons byte front ih =>
    obtain ⟨here,later⟩ := List.forall_mem_cons.mp plain
    have silent : (⟨offset,offset + 1,decide (byte = 13 ∨ byte = 10)⟩ : Cell).lineEnd? = none := by
      simp [Cell.lineEnd?,here.1,here.2]
    rw [List.cons_append,cells.eq_2 offset byte _ fun _ same => absurd same here.1,List.filterMap_cons,silent,
      ih later,List.length_cons,Nat.add_comm front.length,← Nat.add_assoc]

theorem cells_encoded (offset : Nat) (text : List Char) :
    (cells offset (encoded text)).filterMap Cell.lineEnd? = lineEnds offset text := by
  induction text using read_lines generalizing offset with
  | nil => rfl
  | pair rest ih =>
    have written : encoded ('\r' :: '\n' :: rest) = 13 :: 10 :: encoded rest := rfl
    rw [written,cells.eq_1,lineEnds.eq_1,List.filterMap_cons,ih]
    rfl
  | single c rest apart ih =>
    have written : encoded (c :: rest) = String.utf8EncodeChar c ++ encoded rest := List.flatMap_cons
    rw [lineEnds_single apart,written,← ih]
    cases ends : isLineEnd c with
    | true =>
      have alone : ∀ bytes, c = '\r' → encoded rest = 10 :: bytes → False := by
        intro bytes isReturn feed
        obtain ⟨after,same⟩ := encoded_feed feed
        exact apart (partsReturn_single.mpr ⟨after,isReturn,same⟩)
      rcases isLineEnd_iff.mp ends with rfl | rfl
      · have byte : String.utf8EncodeChar '\r' = [13] := rfl
        rw [byte,List.singleton_append,cells.eq_2 offset 13 _ fun bytes _ => alone bytes rfl]
        rfl
      · have byte : String.utf8EncodeChar '\n' = [10] := rfl
        rw [byte,List.singleton_append,cells.eq_2 offset 10 _ fun _ same => by cases same]
        rfl
    | false =>
      rw [cells_plain (plain_bytes ends),String.length_utf8EncodeChar]
      rfl

end ScriptLexer
