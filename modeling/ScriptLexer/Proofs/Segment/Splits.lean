import ScriptLexer.Proofs.Segment.Reading
import ScriptLexer.Segment.Split

namespace ScriptLexer

inductive Splits : List Char → List Segment → Prop where
  | nil : Splits [] []
  | cons {piece : Segment} {after : List Char} {pieces : List Segment}
      (stands : piece.StandsBefore after) (tail : Splits after pieces) :
      Splits (piece.text ++ after) (piece :: pieces)

theorem segments_splits (source : List Char) : Splits source (segments source) := by
  induction source using segments_induction with
  | nil =>
    rw [segments_nil]
    exact .nil
  | cons c rest ih =>
    rw [segments_cons]
    have head := Splits.cons (Segment.read_stands c rest) ih
    rwa [Segment.read_text] at head

theorem stands_ne_nil {piece : Segment} {after : List Char} (stands : piece.StandsBefore after) :
    piece.text ≠ [] := by
  cases piece with
  | number whole fraction =>
    obtain ⟨d,whole,rfl⟩ := List.exists_cons_of_ne_nil stands.1.1
    cases fraction <;> simp [Segment.text,Segment.numberText]
  | word letters =>
    obtain ⟨d,rest,rfl,_,_⟩ := stands.1
    simp [Segment.text]
  | operator o => cases o <;> simp [Segment.text,Operator.text]
  | _ => simp [Segment.text]

theorem splits_blank {text after : List Char} {pieces : List Segment}
    (blank : ∀ c ∈ text, isBlank c = true) (tail : Splits after pieces) :
    Splits (text ++ after) (text.map Segment.blank ++ pieces) := by
  induction text with
  | nil => exact tail
  | cons c text ih =>
    have first : (Segment.blank c).StandsBefore (text ++ after) := blank c (by simp)
    exact .cons first (ih fun d member => blank d (List.mem_cons_of_mem c member))

theorem exists_stands {source : List Char} (more : source ≠ []) :
    ∃ (piece : Segment) (after : List Char), piece.StandsBefore after ∧ piece.text ++ after = source := by
  obtain ⟨c,rest,rfl⟩ := List.exists_cons_of_ne_nil more
  exact ⟨_,_,Segment.read_stands c rest,Segment.read_text c rest⟩

theorem stands_unique {first second : Segment} {behind after : List Char}
    (stands : first.StandsBefore behind) (other : second.StandsBefore after)
    (same : first.text ++ behind = second.text ++ after) : first = second ∧ behind = after := by
  cases written : first.text ++ behind with
  | nil => exact absurd (List.append_eq_nil_iff.mp written).1 (stands_ne_nil stands)
  | cons c rest =>
    have read := Segment.read_exact stands written
    rw [Segment.read_exact other (same.symm.trans written)] at read
    exact ⟨(Prod.mk.inj read).1.symm,(Prod.mk.inj read).2.symm⟩

theorem segments_stands {piece : Segment} {after : List Char} (stands : piece.StandsBefore after) :
    segments (piece.text ++ after) = piece :: segments after := by
  cases written : piece.text ++ after with
  | nil => exact absurd (List.append_eq_nil_iff.mp written).1 (stands_ne_nil stands)
  | cons c rest => rw [segments_cons,Segment.read_exact stands written]

theorem splits_segments {source : List Char} {pieces : List Segment} (split : Splits source pieces) :
    segments source = pieces := by
  induction split with
  | nil => exact segments_nil
  | cons stands tail ih => rw [segments_stands stands,ih]

theorem splits_exact {source : List Char} {pieces : List Segment} :
    Splits source pieces ↔ segments source = pieces :=
  ⟨splits_segments,fun same => same ▸ segments_splits source⟩

end ScriptLexer
