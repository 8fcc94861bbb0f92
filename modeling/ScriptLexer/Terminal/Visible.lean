namespace ScriptLexer

-- Output that goes to a pipe holds no control character but the line feed, so a source
-- cannot steer the terminal that later shows it. The two line separators count as
-- controls here.
def isControl (c : Char) : Bool :=
  c.toNat < 0x20 || (0x7f ≤ c.toNat && c.toNat ≤ 0x9f) || c.toNat = 0x2028 || c.toNat = 0x2029

def codePoint (c : Char) : List Char :=
  'U' :: '+' :: ((Nat.toDigits 16 c.toNat).map Char.toUpper).leftpad 4 '0'

def visibleChar (c : Char) : List Char :=
  if c = '\n' ∨ ¬ isControl c then [c]
  else if c.toNat < 0x20 then ['^',Char.ofNat (c.toNat + 64)]
  else codePoint c

def visible (text : String) : String := String.ofList (text.toList.flatMap visibleChar)

theorem visible_append (front back : String) : visible (front ++ back) = visible front ++ visible back := by
  simp [visible,String.ofList_append]

end ScriptLexer
