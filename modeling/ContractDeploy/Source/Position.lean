
namespace ContractDeploy

structure Position where
  line : Nat
  column : Nat
  offset : Nat
  deriving DecidableEq, Repr, Inhabited

namespace Position

def start : Position := ⟨1, 1, 0⟩

def advance (p : Position) (c : Char) : Position :=
  if c = '\n' then ⟨p.line + 1, 1, p.offset + c.utf8Size⟩
  else ⟨p.line, p.column + 1, p.offset + c.utf8Size⟩

def advanceAll (p : Position) (cs : List Char) : Position := cs.foldl advance p

def display (p : Position) : String := s!"{p.line}:{p.column}"

@[simp] theorem advanceAll_nil (p : Position) : p.advanceAll [] = p := rfl

@[simp] theorem advanceAll_cons (p : Position) (c : Char) (cs : List Char) :
    p.advanceAll (c :: cs) = (p.advance c).advanceAll cs := rfl

theorem advanceAll_append (p : Position) (xs ys : List Char) :
    p.advanceAll (xs ++ ys) = (p.advanceAll xs).advanceAll ys := by
  simp [advanceAll, List.foldl_append]

end Position

structure Span where
  start : Position
  stop : Position
  deriving DecidableEq, Repr, Inhabited

namespace Span

def len (s : Span) : Nat := s.stop.offset - s.start.offset

def display (s : Span) : String :=
  if s.start.line = s.stop.line then s!"{s.start.display}-{s.stop.column}"
  else s!"{s.start.display}-{s.stop.display}"

end Span

end ContractDeploy
