import ScriptLexer.Proofs.Reader.Step

namespace ScriptLexer.Reader

variable {source before inside rest : List Char} {s t : Reader} {passed : List Reader}

inductive Runs (source : List Char) : Reader → List Reader → Reader → Prop where
  | refl (s : Reader) : Runs source s [] s
  | step {s t next : Reader} {passed : List Reader} (run : Runs source s passed t)
      (going : t.stage ≠ .ended) (stepped : t.step source = .ok next) :
      Runs source s (passed ++ [t]) next

def turns (passed : List Reader) : Nat := passed.countP (·.stage = .dispatch)

def consumed (source : List Char) (s : Reader) : Nat := (slice source 0 s.current).length

theorem Located.consumed_eq (located : Located source s before inside rest) :
    consumed source s = (before ++ inside).length := by
  rw [consumed,located.current,located.whole,slice_front]

theorem initial_valid (source : List Char) : Valid source initial := by
  apply Valid.between rfl
  show Between source initial [] source
  exact ⟨rfl,rfl,⟨[],[],rfl,rfl,rfl,rfl⟩,rfl⟩

theorem Valid.located (valid : Valid source s) : ∃ before inside rest, Located source s before inside rest := by
  cases valid with
  | between stage here =>
    obtain ⟨before,inside,_,located⟩ := here.located
    exact ⟨before,inside,_,located⟩
  | within fits here => exact ⟨_,_,_,here.located⟩
  | counted fits body here => exact ⟨_,_,_,here.located.whole,here.located.start,here.located.current⟩
  | ended stage told located line => exact ⟨_,_,_,located⟩

def InBounds (source : List Char) (s : Reader) : Prop :=
  s.start ≤ s.current ∧ s.current ≤ byteLength source ∧ IsBoundary source s.start ∧
    IsBoundary source s.current

theorem Located.inBounds (located : Located source s before inside rest) : InBounds source s := by
  have current : IsBoundary source s.current := by
    rw [located.current,located.whole]
    exact isBoundary_append (before ++ inside) rest
  refine ⟨?_,current.le_byteLength,?_,current⟩
  · rw [located.start,located.current]
    exact byteLength_le_append before inside
  · rw [located.start,located.whole,List.append_assoc]
    exact isBoundary_append before (inside ++ rest)

theorem Within.line_eq {pieces : List Segment} (here : Within source s pieces inside rest) :
    s.line = 1 + lineFeeds (pieces.flatMap Segment.text ++ inside) := by
  rw [here.line,here.startLine,lineFeeds_append,Nat.add_assoc]

theorem Valid.line_le (valid : Valid source s) : s.line - 1 ≤ consumed source s := by
  cases valid with
  | between stage here =>
    obtain ⟨before,inside,front,located⟩ := here.located
    have feeds := lineFeeds_le_length (before ++ inside)
    rw [located.consumed_eq,here.line,front]
    omega
  | @within s pieces inside rest fits here =>
    have feeds := lineFeeds_le_length (pieces.flatMap Segment.text ++ inside)
    rw [here.located.consumed_eq,here.line_eq]
    omega
  | @counted s pieces inside rest c fits body here =>
    -- The line feed is counted before it is read: the opening quote makes up for it.
    obtain ⟨text,rfl,_⟩ := fits
    have front := lineFeeds_le_length (pieces.flatMap Segment.text)
    have feeds := lineFeeds_le_length text
    have next := lineFeeds_le_length [c]
    have quote : lineFeeds ('"' :: text) = lineFeeds text := List.count_cons_of_ne (by decide)
    have same : consumed source s = (pieces.flatMap Segment.text ++ '"' :: text).length :=
      here.located.consumed_eq
    show s.line + lineFeeds [c] - 1 ≤ consumed source s
    rw [same,here.line_eq,lineFeeds_append,quote,List.length_append,List.length_cons]
    rw [List.length_singleton] at next
    omega
  | ended stage told located line =>
    have feeds := lineFeeds_le_length source
    rw [located.consumed_eq,line,List.append_nil]
    omega

-- What one step gains. A stage is worth less than a character, so that even a step that
-- reads nothing gains.
theorem Moves.gains (moves : Moves source s t) (valid : Valid source s) :
    3 * consumed source s + t.stage.height + 1 ≤ 3 * consumed source t + s.stage.height ∧
      consumed source s + turns [s] ≤ consumed source t := by
  have bound : t.stage.height ≤ 2 := by cases t.stage <;> simp [Stage.height]
  have single : turns [s] ≤ 1 := List.countP_le_length
  cases moves with
  | @reads c rest next current =>
    obtain ⟨before,inside,behind,located⟩ := valid.located
    have same : behind = c :: rest := Except.ok.inj (located.unread_eq.symm.trans next)
    subst same
    have after : consumed source t = consumed source (s.moved c) := by
      rw [consumed,current]
      rfl
    have more : consumed source t = consumed source s + 1 := by
      rw [after,located.moved.consumed_eq,located.consumed_eq,← List.append_assoc,List.length_append,
        List.length_singleton]
    omega
  | stays current lower =>
    have same : consumed source t = consumed source s := by rw [consumed,consumed,current]
    have uncounted : turns [s] = 0 := by
      have notDispatch : s.stage ≠ .dispatch := by
        intro dispatch
        rw [dispatch] at lower
        exact absurd lower (Nat.not_lt_zero _)
      simp [turns,notDispatch]
    omega

theorem Runs.gains (run : Runs source s passed t) (valid : Valid source s) :
    Valid source t ∧
      3 * consumed source s + t.stage.height + passed.length ≤ 3 * consumed source t + s.stage.height ∧
        consumed source s + turns passed ≤ consumed source t := by
  induction run with
  | refl => exact ⟨valid,Nat.le_refl _,Nat.le_refl _⟩
  | @step t next passed run going stepped ih =>
    obtain ⟨reached,weight,count⟩ := ih
    obtain ⟨u,ran,later,moves⟩ := proceeds reached going
    rw [stepped] at ran
    obtain rfl := Except.ok.inj ran
    have gain := moves.gains reached
    have both : turns (passed ++ [t]) = turns passed + turns [t] := List.countP_append
    rw [List.length_append,List.length_singleton,both]
    exact ⟨later,by omega,by omega⟩

theorem Valid.consumed_le (valid : Valid source s) : consumed source s ≤ source.length := by
  obtain ⟨before,inside,rest,located⟩ := valid.located
  rw [located.consumed_eq,located.whole]
  exact (List.prefix_append (before ++ inside) rest).length_le

theorem runs_on (source : List Char) (steps : Nat) :
    ∃ passed s, Runs source initial passed s ∧ (s.stage = .ended ∨ passed.length = steps) := by
  induction steps with
  | zero => exact ⟨[],initial,.refl initial,.inr rfl⟩
  | succ steps ih =>
    obtain ⟨passed,s,run,reached⟩ := ih
    by_cases ended : s.stage = .ended
    · exact ⟨passed,s,run,.inl ended⟩
    · obtain ⟨t,ran,_⟩ := proceeds (run.gains (initial_valid source)).1 ended
      refine ⟨passed ++ [s],t,.step run ended ran,.inr ?_⟩
      rw [List.length_append,List.length_singleton,reached.resolve_left ended]

theorem Valid.told_all (valid : Valid source s) (ended : s.stage = .ended) :
    s.told = (scan source).events ++ [.token (scan source).endToken] := by
  cases valid with
  | between stage here => rw [stage] at ended; cases ended
  | within fits here =>
    rw [ended] at fits
    exact fits.elim
  | counted fits body here => cases ended
  | ended stage told located line => exact told

theorem runs_ended (source : List Char) :
    ∃ passed s, Runs source initial passed s ∧ s.stage = .ended ∧ Valid source s := by
  obtain ⟨passed,s,run,reached⟩ := runs_on source (3 * source.length + 2)
  obtain ⟨valid,weight,_⟩ := run.gains (initial_valid source)
  refine ⟨passed,s,run,?_,valid⟩
  have whole := valid.consumed_le
  rcases reached with ended | long
  · exact ended
  · have height : initial.stage.height = 1 := rfl
    omega

-- At every point of a run the offsets are in order, within the source and between two
-- characters, no step is refused, and between two visits to the same stage, the head of
-- any loop among them, at least one whole character is read. The run ends, and what it
-- tells is the scan.
theorem run_in_bounds (source : List Char) :
    (∀ passed s, Runs source initial passed s →
      InBounds source s ∧ s.line - 1 ≤ consumed source s ∧
      (s.stage ≠ .ended → ∃ t, s.step source = .ok t) ∧
      ∀ later t, Runs source s later t →
        consumed source s + turns later ≤ consumed source t ∧
          (later ≠ [] → t.stage = s.stage → consumed source s < consumed source t)) ∧
    ∃ passed s, Runs source initial passed s ∧ s.stage = .ended ∧
      turns passed ≤ source.length ∧ passed.length ≤ 3 * source.length + 1 ∧
      s.told = (scan source).events ++ [.token (scan source).endToken] := by
  have start := initial_valid source
  refine ⟨?_,?_⟩
  · intro passed s run
    have valid := (run.gains start).1
    obtain ⟨before,inside,rest,located⟩ := valid.located
    refine ⟨located.inBounds,valid.line_le,?_,?_⟩
    · intro going
      obtain ⟨t,ran,_⟩ := proceeds valid going
      exact ⟨t,ran⟩
    · intro later t onward
      obtain ⟨_,weight,count⟩ := onward.gains valid
      refine ⟨count,?_⟩
      intro nonempty same
      have steps := List.length_pos_iff.mpr nonempty
      rw [same] at weight
      omega
  · obtain ⟨passed,s,run,reached⟩ := runs_on source (3 * source.length + 2)
    obtain ⟨valid,weight,count⟩ := run.gains start
    have whole := valid.consumed_le
    have height : initial.stage.height = 1 := rfl
    have ended : s.stage = .ended := by
      rcases reached with ended | long
      · exact ended
      · omega
    exact ⟨passed,s,run,ended,by omega,by omega,valid.told_all ended⟩

end ScriptLexer.Reader
