import ScriptLexer.Segment.Read
import ScriptLexer.Text.Place

-- The split of a whole source: one segment after the other, each read where the one
-- before it ended. The segments written in order are the source again.
namespace ScriptLexer

namespace Segment

def collect (found : List Segment) : List Char → List Segment
  | [] => found.reverse
  | c :: rest => collect ((read c rest).1 :: found) (read c rest).2
termination_by text => text.length
decreasing_by exact read_length c rest

end Segment

def segments (source : List Char) : List Segment := Segment.collect [] source

def placed (start : Place) (pieces : List Segment) : List (Place × Segment) :=
  (pieces.scanl (fun place piece => place.after piece.text) start).zip pieces

theorem collect_append (found : List Segment) (source : List Char) :
    Segment.collect found source = found.reverse ++ segments source := by
  induction len : source.length using Nat.strongRecOn generalizing found source with
  | ind _ ih =>
    cases source with
    | nil => simp [segments,Segment.collect]
    | cons c rest =>
      have shorter := len ▸ Segment.read_length c rest
      rw [segments,Segment.collect,Segment.collect,ih _ shorter _ _ rfl,ih _ shorter [_] _ rfl]
      simp

theorem segments_nil : segments [] = [] := by simp [segments,Segment.collect]

theorem segments_cons (c : Char) (rest : List Char) :
    segments (c :: rest) = (Segment.read c rest).1 :: segments (Segment.read c rest).2 := by
  rw [segments,Segment.collect,collect_append]
  rfl

theorem segments_induction {motive : List Char → Prop} (nil : motive [])
    (cons : ∀ c rest, motive (Segment.read c rest).2 → motive (c :: rest)) (source : List Char) :
    motive source := by
  induction len : source.length using Nat.strongRecOn generalizing source with
  | ind _ ih =>
    cases source with
    | nil => exact nil
    | cons c rest => exact cons c rest (ih _ (len ▸ Segment.read_length c rest) _ rfl)

theorem segments_text (source : List Char) : (segments source).flatMap Segment.text = source := by
  induction source using segments_induction with
  | nil => simp [segments_nil]
  | cons c rest ih => rw [segments_cons,List.flatMap_cons,ih,Segment.read_text]

theorem placed_nil (start : Place) : placed start [] = [] := by simp [placed]

theorem placed_cons (start : Place) (piece : Segment) (pieces : List Segment) :
    placed start (piece :: pieces) = (start,piece) :: placed (start.after piece.text) pieces := by
  simp [placed]

end ScriptLexer
