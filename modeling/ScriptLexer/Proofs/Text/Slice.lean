import ScriptLexer.Text.Extent

namespace ScriptLexer

theorem withOffsets_append (start : Nat) (front back : List Char) :
    withOffsets start (front ++ back) =
      withOffsets start front ++ withOffsets (start + byteLength front) back := by
  induction front generalizing start with
  | nil => rw [withOffsets_nil,byteLength_nil,List.nil_append,List.nil_append,Nat.add_zero]
  | cons c front ih =>
    rw [List.cons_append,withOffsets_cons,withOffsets_cons,ih,byteLength_cons,Nat.add_assoc,
      List.cons_append]

theorem withOffsets_bounds {start offset : Nat} {c : Char} {text : List Char}
    (member : (offset,c) ∈ withOffsets start text) : start ≤ offset ∧ offset < start + byteLength text := by
  induction text generalizing start with
  | nil =>
    rw [withOffsets_nil] at member
    cases member
  | cons d text ih =>
    have size := d.utf8Size_pos
    rw [withOffsets_cons] at member
    rw [byteLength_cons]
    rcases List.mem_cons.mp member with same | later
    · have := (Prod.mk.inj same).1
      omega
    · have := ih later
      omega

theorem withOffsets_text (start : Nat) (text : List Char) : (withOffsets start text).map (·.2) = text := by
  induction text generalizing start with
  | nil => rw [withOffsets_nil,List.map_nil]
  | cons c text ih => rw [withOffsets_cons,List.map_cons,ih]

theorem slice_filter (text : List Char) (start stop : Nat) :
    slice text start stop =
      ((withOffsets 0 text).filter fun cut => start ≤ cut.1 && cut.1 < stop).map (·.2) := rfl

theorem withOffsets_inside (before text : List Char) :
    (withOffsets (byteLength before) text).filter
        (fun cut => byteLength before ≤ cut.1 && cut.1 < byteLength (before ++ text)) =
      withOffsets (byteLength before) text := by
  rw [List.filter_eq_self,byteLength_append]
  intro pair member
  have bounds := withOffsets_bounds (show (pair.1,pair.2) ∈ withOffsets _ text from member)
  simp only [Bool.and_eq_true,decide_eq_true_eq]
  exact bounds

theorem withOffsets_outside {start low high : Nat} {part : List Char}
    (outside : start + byteLength part ≤ low ∨ high ≤ start) :
    (withOffsets start part).filter (fun cut => low ≤ cut.1 && cut.1 < high) = [] := by
  rw [List.filter_eq_nil_iff]
  intro pair member
  have bounds := withOffsets_bounds (show (pair.1,pair.2) ∈ withOffsets start part from member)
  simp only [Bool.and_eq_true,decide_eq_true_eq,not_and]
  omega

theorem slice_between (before text after : List Char) :
    slice (before ++ text ++ after) (byteLength before) (byteLength (before ++ text)) = text := by
  rw [slice_filter,withOffsets_append,withOffsets_append,List.filter_append,List.filter_append,
    Nat.zero_add,Nat.zero_add,withOffsets_inside]
  rw [withOffsets_outside (.inl (Nat.le_of_eq (Nat.zero_add _)))]
  rw [withOffsets_outside (.inr (Nat.le_refl _))]
  rw [List.nil_append,List.append_nil,withOffsets_text]

theorem slice_front (front back : List Char) : slice (front ++ back) 0 (byteLength front) = front :=
  slice_between [] front back

end ScriptLexer
