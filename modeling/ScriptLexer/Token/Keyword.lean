namespace ScriptLexer

inductive Keyword where
  | kwAnd
  | kwClass
  | kwElse
  | kwFalse
  | kwFun
  | kwFor
  | kwIf
  | kwNil
  | kwOr
  | kwPrint
  | kwReturn
  | kwSuper
  | kwThis
  | kwTrue
  | kwVar
  | kwWhile
deriving DecidableEq

namespace Keyword

def all : List Keyword :=
  [kwAnd,kwClass,kwElse,kwFalse,kwFun,kwFor,kwIf,kwNil,kwOr,kwPrint,kwReturn,kwSuper,kwThis,
   kwTrue,kwVar,kwWhile]

def name : Keyword → String
  | kwAnd => "KwAnd"
  | kwClass => "KwClass"
  | kwElse => "KwElse"
  | kwFalse => "KwFalse"
  | kwFun => "KwFun"
  | kwFor => "KwFor"
  | kwIf => "KwIf"
  | kwNil => "KwNil"
  | kwOr => "KwOr"
  | kwPrint => "KwPrint"
  | kwReturn => "KwReturn"
  | kwSuper => "KwSuper"
  | kwThis => "KwThis"
  | kwTrue => "KwTrue"
  | kwVar => "KwVar"
  | kwWhile => "KwWhile"

def text : Keyword → List Char
  | kwAnd => ['a','n','d']
  | kwClass => ['c','l','a','s','s']
  | kwElse => ['e','l','s','e']
  | kwFalse => ['f','a','l','s','e']
  | kwFun => ['f','u','n']
  | kwFor => ['f','o','r']
  | kwIf => ['i','f']
  | kwNil => ['n','i','l']
  | kwOr => ['o','r']
  | kwPrint => ['p','r','i','n','t']
  | kwReturn => ['r','e','t','u','r','n']
  | kwSuper => ['s','u','p','e','r']
  | kwThis => ['t','h','i','s']
  | kwTrue => ['t','r','u','e']
  | kwVar => ['v','a','r']
  | kwWhile => ['w','h','i','l','e']

-- A word is reserved only when it is spelled exactly so: case counts, and a longer
-- word that begins with a reserved one is not reserved.
def ofText? (word : List Char) : Option Keyword := all.find? (·.text == word)

theorem mem_all (k : Keyword) : k ∈ all := by cases k <;> decide

theorem ofText_text (k : Keyword) : ofText? k.text = some k := by cases k <;> decide

theorem ofText_eq_some {word : List Char} {k : Keyword} : ofText? word = some k ↔ word = k.text :=
  ⟨fun found => (by simpa using List.find?_some found : k.text = word).symm,fun same => same ▸ ofText_text k⟩

end Keyword

end ScriptLexer
