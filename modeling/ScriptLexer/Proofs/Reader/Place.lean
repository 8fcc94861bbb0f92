import ScriptLexer.Proofs.Reader.Machine

-- What a reader sees where its offsets are those of a split of the source: no look and no
-- cut is refused, and each shows the part of the source that it should.
namespace ScriptLexer.Reader

variable {source before inside rest : List Char} {s : Reader} {c : Char}

@[simp] theorem ok_bind {α β : Type} (a : α) (next : α → Except Refusal β) :
    (Except.ok a >>= next) = next a := rfl

@[simp] theorem pure_ok {α : Type} (a : α) : (pure a : Except Refusal α) = .ok a := rfl

structure Located (source : List Char) (s : Reader) (before inside rest : List Char) : Prop where
  whole : source = before ++ inside ++ rest
  start : s.start = byteLength before
  current : s.current = byteLength (before ++ inside)

def moved (s : Reader) (c : Char) : Reader := {s with current := s.current + c.utf8Size}

theorem Located.moved (located : Located source s before inside (c :: rest)) :
    Located source (s.moved c) before (inside ++ [c]) rest := by
  refine ⟨?_,located.start,?_⟩
  · rw [located.whole]
    simp only [List.append_assoc,List.singleton_append]
  · rw [← List.append_assoc,byteLength_append]
    exact congrArg (· + c.utf8Size) located.current

theorem cut_ok {start stop : Nat} {text : List Char} (found : cut? source start stop = some text) :
    cut source start stop = .ok text := by
  simp only [cut,found]

theorem Located.unread_eq (located : Located source s before inside rest) : unread source s = .ok rest := by
  have found := cut_between (before ++ inside) rest []
  rw [List.append_nil,← located.whole,← located.current] at found
  exact cut_ok found

theorem Located.lexeme_eq (located : Located source s before inside rest) : lexeme source s = .ok inside := by
  have found := cut_between before inside rest
  rw [← located.whole,← located.start,← located.current] at found
  exact cut_ok found

theorem Located.atEnd_eq (located : Located source s before inside rest) : atEnd source s = rest.isEmpty := by
  have size := byteLength_append (before ++ inside) rest
  rw [← located.whole,← located.current] at size
  cases rest with
  | nil => simp [atEnd,size,byteLength_nil]
  | cons c rest =>
    have := c.utf8Size_pos
    rw [byteLength_cons] at size
    simp only [atEnd,List.isEmpty_cons,decide_eq_false_iff_not]
    omega

theorem Located.peek_eq (located : Located source s before inside rest) :
    peek source s = .ok (rest.head?.getD '\x00') := by
  simp only [peek,located.unread_eq]
  rfl

theorem Located.peekNext_eq (located : Located source s before inside rest) :
    peekNext source s = .ok (rest[1]?.getD '\x00') := by
  simp only [peekNext,located.unread_eq]
  rfl

theorem Located.advance_eq (located : Located source s before inside (c :: rest)) :
    advance source s = .ok (c,s.moved c) := by
  simp only [advance,located.atEnd_eq,located.peek_eq]
  rfl

theorem Located.accept_yes (located : Located source s before inside (c :: rest)) :
    accept source s c = .ok (true,s.moved c) := by
  simp only [accept,located.atEnd_eq,located.peek_eq]
  simp [Reader.moved]

theorem Located.accept_no (located : Located source s before inside rest)
    (other : Stops (· == c) rest) : accept source s c = .ok (false,s) := by
  simp only [accept,located.atEnd_eq,located.peek_eq]
  cases rest with
  | nil => rfl
  | cons d rest =>
    rw [stops_cons,beq_eq_false_iff_ne] at other
    simp [other]

theorem Located.addToken_eq (located : Located source s before inside rest) (kind : TokenKind)
    (literal : Option Literal) :
    addToken source s kind literal =
      .ok (s.tellToken kind inside literal) := by
  simp only [addToken,located.lexeme_eq]
  rfl

theorem Located.body_eq {body : List Char}
    (located : Located source s before ('"' :: body ++ ['"']) rest) :
    cut source (s.start + 1) (s.current - 1) = .ok body := by
  have found := cut_between (before ++ ['"']) body ('"' :: rest)
  have whole : before ++ ['"'] ++ body ++ '"' :: rest = source := by
    rw [located.whole]
    simp only [List.append_assoc,List.cons_append,List.nil_append]
  have start : byteLength (before ++ ['"']) = s.start + 1 := by
    rw [byteLength_append,located.start]
    rfl
  have stop : byteLength (before ++ ['"'] ++ body) = s.current - 1 := by
    rw [located.current]
    simp only [byteLength_append,byteLength_cons,List.cons_append]
    have quote : byteLength ['"'] = 1 := rfl
    have size : '"'.utf8Size = 1 := rfl
    omega
  rw [whole,start,stop] at found
  exact cut_ok found

end ScriptLexer.Reader
