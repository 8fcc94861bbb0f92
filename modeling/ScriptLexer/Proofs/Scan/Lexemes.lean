import ScriptLexer.Proofs.Scan.Events

namespace ScriptLexer

def Segment.lexeme? (piece : Segment) : Option (List Char) :=
  match piece with
  | .string _ | .number _ _ | .word _ | .operator _ => some piece.text
  | _ => none

def Segment.IsOrdinary (piece : Segment) : Prop := (∃ c, piece = .blank c) ∨ piece.lexeme?.isSome = true

theorem lexeme_text {piece : Segment} {text : List Char} (found : piece.lexeme? = some text) :
    piece.text = text := by
  cases piece with
  | string body | number whole fraction | word letters | operator o => exact Option.some.inj found
  | _ => cases found

theorem tokens_lexemes (source : List Char) :
    (scan source).tokens.map Token.lexeme = (segments source).filterMap Segment.lexeme? ++ [[]] := by
  have each (piece : Segment) (place : Place) :
      ((piece.event? place).bind Event.token?).map Token.lexeme = piece.lexeme? := by
    cases piece <;> rfl
  have all (place : Place) (pieces : List Segment) :
      ((eventsFrom place pieces).filterMap Event.token?).map Token.lexeme =
        pieces.filterMap Segment.lexeme? := by
    induction pieces generalizing place with
    | nil => rw [eventsFrom_nil,List.filterMap_nil,List.filterMap_nil,List.map_nil]
    | cons piece pieces ih =>
      rw [seen_cons,List.map_append,ih,List.filterMap_cons,
        ← each piece place]
      cases (piece.event? place).bind Event.token? <;> rfl
  rw [Scan.tokens,List.map_append]
  exact congrArg (· ++ [[]]) (all .start (segments source))

theorem errors_nil_of_ordinary {source : List Char}
    (ordinary : ∀ piece ∈ segments source, piece.IsOrdinary) : (scan source).errors = [] := by
  have each (piece : Segment) (place : Place) :
      (∃ event, piece.event? place = some event ∧ ∃ error, event.error? = some error) ↔
        (∃ body, piece = .openString body) ∨ ∃ c, piece = .stray c := by
    cases piece <;> simp [Segment.event?,Event.error?]
  have told := told_iff each .start (segments source)
  rw [← events_from] at told
  rw [Scan.errors,List.filterMap_eq_nil_iff]
  intro event member
  cases seen : event.error? with
  | none => rfl
  | some error =>
    obtain ⟨piece,found,bad⟩ := told.mp ⟨event,member,error,seen⟩
    rcases ordinary piece found with blank | token
    · obtain ⟨c,rfl⟩ := blank
      simp at bad
    · rcases bad with opened | stray
      · obtain ⟨body,rfl⟩ := opened
        cases token
      · obtain ⟨c,rfl⟩ := stray
        cases token

def solid (text : List Char) : Nat := text.countP fun c => !isBlank c

theorem solid_append (front back : List Char) : solid (front ++ back) = solid front + solid back :=
  List.countP_append

theorem solid_blank {text : List Char} (blank : ∀ c ∈ text, isBlank c = true) : solid text = 0 := by
  rw [solid,List.countP_eq_zero]
  intro c member
  simp [blank c member]

theorem solid_piece {piece : Segment} {after : List Char} (stands : piece.StandsBefore after) :
    solid (piece.lexeme?.getD []) ≤ solid piece.text ∧
      (solid piece.text ≤ solid (piece.lexeme?.getD []) → piece.IsOrdinary) := by
  have marked (c : Char) (text : List Char) (notBlank : isBlank c = false) : 0 < solid (c :: text) := by
    rw [solid,List.countP_cons,notBlank]
    simp
  cases piece with
  | blank c => exact ⟨Nat.zero_le _,fun _ => .inl ⟨c,rfl⟩⟩
  | string body | number whole fraction | word letters | operator o =>
    exact ⟨Nat.le_refl _,fun _ => .inr rfl⟩
  | lineComment body | blockComment body | openComment body =>
    exact ⟨Nat.zero_le _,fun unmarked => absurd unmarked (Nat.not_le_of_lt (marked '/' _ rfl))⟩
  | openString body =>
    exact ⟨Nat.zero_le _,fun unmarked => absurd unmarked (Nat.not_le_of_lt (marked '"' _ rfl))⟩
  | stray c =>
    exact ⟨Nat.zero_le _,fun unmarked => absurd unmarked (Nat.not_le_of_lt (marked c _ stands.notBlank))⟩

-- Where the lexemes hold all that is not blank, every piece is ordinary: a comment or
-- an error would take something from them.
theorem ordinary_of_solid {source : List Char} {pieces : List Segment} (split : Splits source pieces) :
    solid (pieces.filterMap Segment.lexeme?).flatten ≤ solid source ∧
      (solid source ≤ solid (pieces.filterMap Segment.lexeme?).flatten →
        ∀ piece ∈ pieces, piece.IsOrdinary) := by
  induction split with
  | nil => exact ⟨Nat.le_refl _,by simp⟩
  | @cons piece after pieces stands tail ih =>
    obtain ⟨below,ordinary⟩ := solid_piece stands
    have lexemes : ((piece :: pieces).filterMap Segment.lexeme?).flatten =
        piece.lexeme?.getD [] ++ (pieces.filterMap Segment.lexeme?).flatten := by
      rw [List.filterMap_cons]
      cases piece.lexeme? <;> rfl
    rw [lexemes,solid_append,solid_append]
    refine ⟨by omega,?_⟩
    intro whole other member
    rcases List.mem_cons.mp member with rfl | later
    · exact ordinary (by omega)
    · exact ih.2 (by omega) other later

end ScriptLexer
