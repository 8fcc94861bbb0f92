import Mathlib.Data.List.Basic
import ScriptLexer.Proofs.Text.Slice
import ScriptLexer.Text.Position

namespace ScriptLexer

def Span.covers (span : Span) (offset : Nat) : Bool := span.start ≤ offset && offset < span.stop

def isCovered (spans : List Span) (offset : Nat) : Bool := spans.any fun span => span.covers offset

-- From an offset on, each character that begins under one of the spans is written anew
-- and every other one stays.
def overwriteFrom (anew : Char → List Char) (spans : List Span) (start : Nat) (text : List Char) : List Char :=
  (withOffsets start text).flatMap fun cut => if isCovered spans cut.1 then anew cut.2 else [cut.2]

def overwrite (anew : Char → List Char) (spans : List Span) (text : List Char) : List Char :=
  overwriteFrom anew spans 0 text

theorem covers_iff {span : Span} {offset : Nat} :
    span.covers offset = true ↔ span.start ≤ offset ∧ offset < span.stop := by
  rw [Span.covers,Bool.and_eq_true,decide_eq_true_eq,decide_eq_true_eq]

theorem isCovered_append (front back : List Span) (offset : Nat) :
    isCovered (front ++ back) offset = (isCovered front offset || isCovered back offset) :=
  List.any_append

theorem isCovered_apart {spans : List Span} {offset : Nat}
    (apart : ∀ span ∈ spans, span.stop ≤ offset ∨ offset < span.start) : isCovered spans offset = false := by
  rw [isCovered,List.any_eq_false]
  intro span member inside
  have bounds := covers_iff.mp inside
  have := apart span member
  omega

variable (anew : Char → List Char) {spans : List Span} {start : Nat}

theorem overwriteFrom_append (front back : List Char) :
    overwriteFrom anew spans start (front ++ back) =
      overwriteFrom anew spans start front ++ overwriteFrom anew spans (start + byteLength front) back := by
  rw [overwriteFrom,withOffsets_append,List.flatMap_append]
  rfl

theorem overwriteFrom_uniform {covered : Bool} {text : List Char}
    (uniform : ∀ offset, start ≤ offset → offset < start + byteLength text → isCovered spans offset = covered) :
    overwriteFrom anew spans start text = if covered then text.flatMap anew else text := by
  have each : overwriteFrom anew spans start text =
      (withOffsets start text).flatMap fun cut => if covered then anew cut.2 else [cut.2] := by
    apply List.flatMap_congr
    intro cut member
    have bounds := withOffsets_bounds (show (cut.1,cut.2) ∈ withOffsets start text from member)
    rw [uniform cut.1 bounds.1 bounds.2]
  have whole := List.flatMap_map (·.2) (fun c => if covered then anew c else [c]) (withOffsets start text)
  rw [withOffsets_text] at whole
  rw [each,← whole]
  cases covered with
  | true => rfl
  | false => exact List.flatMap_singleton' text

end ScriptLexer
