import ScriptLexer.Proofs.Text.Slice

-- Cuts that are refused where an offset lies outside the text or inside a character, or
-- where the two offsets are the wrong way round.
namespace ScriptLexer

def boundaries (text : List Char) : List Nat := text.scanl (fun offset c => offset + c.utf8Size) 0

def IsBoundary (text : List Char) (offset : Nat) : Prop := offset ∈ boundaries text

instance (text : List Char) (offset : Nat) : Decidable (IsBoundary text offset) :=
  inferInstanceAs (Decidable (offset ∈ boundaries text))

def cut? (text : List Char) (start stop : Nat) : Option (List Char) :=
  if start ≤ stop ∧ IsBoundary text start ∧ IsBoundary text stop then some (slice text start stop)
  else none

theorem mem_scanl_offsets {start offset : Nat} {text : List Char} :
    offset ∈ text.scanl (fun offset c => offset + c.utf8Size) start ↔
      ∃ front back, text = front ++ back ∧ start + byteLength front = offset := by
  induction text generalizing start with
  | nil =>
    rw [List.scanl_nil,List.mem_singleton]
    constructor
    · intro same
      exact ⟨[],[],rfl,same.symm⟩
    · intro split
      obtain ⟨front,back,empty,same⟩ := split
      obtain ⟨rfl,rfl⟩ := List.append_eq_nil_iff.mp empty.symm
      exact same.symm
  | cons c text ih =>
    rw [List.scanl_cons,List.mem_cons,ih]
    constructor
    · intro found
      rcases found with rfl | ⟨front,back,rfl,same⟩
      · exact ⟨[],c :: text,rfl,rfl⟩
      · refine ⟨c :: front,back,rfl,?_⟩
        rw [byteLength_cons,← Nat.add_assoc]
        exact same
    · intro split
      obtain ⟨front,back,written,same⟩ := split
      cases front with
      | nil => exact .inl same.symm
      | cons d front =>
        obtain ⟨rfl,rfl⟩ := List.cons.inj written
        refine .inr ⟨front,back,rfl,?_⟩
        rw [byteLength_cons,← Nat.add_assoc] at same
        exact same

theorem isBoundary_iff {text : List Char} {offset : Nat} :
    IsBoundary text offset ↔ ∃ front back, text = front ++ back ∧ byteLength front = offset := by
  rw [IsBoundary,boundaries,mem_scanl_offsets]
  simp only [Nat.zero_add]

theorem isBoundary_append (front back : List Char) : IsBoundary (front ++ back) (byteLength front) :=
  isBoundary_iff.mpr ⟨front,back,rfl,rfl⟩

theorem IsBoundary.le_byteLength {text : List Char} {offset : Nat} (boundary : IsBoundary text offset) :
    offset ≤ byteLength text := by
  obtain ⟨front,back,rfl,rfl⟩ := isBoundary_iff.mp boundary
  rw [byteLength_append]
  exact Nat.le_add_right _ _

theorem byteLength_le_append (front back : List Char) : byteLength front ≤ byteLength (front ++ back) := by
  rw [byteLength_append]
  exact Nat.le_add_right _ _

theorem cut_between (before text after : List Char) :
    cut? (before ++ text ++ after) (byteLength before) (byteLength (before ++ text)) = some text := by
  have left : IsBoundary (before ++ text ++ after) (byteLength before) := by
    rw [List.append_assoc]
    exact isBoundary_append before (text ++ after)
  have right : IsBoundary (before ++ text ++ after) (byteLength (before ++ text)) :=
    isBoundary_append (before ++ text) after
  rw [cut?,if_pos ⟨byteLength_le_append before text,left,right⟩,slice_between]

end ScriptLexer
