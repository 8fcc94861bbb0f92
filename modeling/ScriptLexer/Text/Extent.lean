namespace ScriptLexer

-- A text is a list of characters. Offsets into it count the bytes of its UTF-8
-- form and lines count its line feeds; both are sums over the characters, so the
-- offset of a point is the extent of all the text before it.
def byteLength (text : List Char) : Nat := text.foldr (fun c size => c.utf8Size + size) 0

def lineFeeds (text : List Char) : Nat := text.count '\n'

theorem byteLength_nil : byteLength [] = 0 := rfl

theorem byteLength_cons (c : Char) (text : List Char) :
    byteLength (c :: text) = c.utf8Size + byteLength text := rfl

theorem byteLength_append (front back : List Char) :
    byteLength (front ++ back) = byteLength front + byteLength back := by
  induction front with
  | nil => exact (Nat.zero_add _).symm
  | cons c front ih => rw [List.cons_append,byteLength_cons,byteLength_cons,ih,Nat.add_assoc]

theorem length_le_byteLength (text : List Char) : text.length ≤ byteLength text := by
  induction text with
  | nil => exact Nat.le_refl 0
  | cons c text ih =>
    have := c.utf8Size_pos
    rw [byteLength_cons,List.length_cons]
    omega

theorem lineFeeds_append (front back : List Char) :
    lineFeeds (front ++ back) = lineFeeds front + lineFeeds back :=
  List.count_append

theorem lineFeeds_plain {c : Char} (plain : c ≠ '\n') : lineFeeds [c] = 0 := by
  rw [lineFeeds,List.count_singleton,beq_false_of_ne plain]
  rfl

theorem lineFeeds_le_length (text : List Char) : lineFeeds text ≤ text.length :=
  List.count_le_length

def withOffsets (start : Nat) (text : List Char) : List (Nat × Char) :=
  (text.scanl (fun offset c => offset + c.utf8Size) start).zip text

theorem withOffsets_nil (start : Nat) : withOffsets start [] = [] := by simp [withOffsets]

theorem withOffsets_cons (start : Nat) (c : Char) (text : List Char) :
    withOffsets start (c :: text) = (start,c) :: withOffsets (start + c.utf8Size) text := by
  simp [withOffsets]

def slice (text : List Char) (start stop : Nat) : List Char :=
  ((withOffsets 0 text).filter fun (offset,_) => start ≤ offset && offset < stop).map (·.2)

end ScriptLexer
