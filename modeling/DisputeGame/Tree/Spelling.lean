import DisputeGame.Text.Blank
import DisputeGame.Text.Numeral
import DisputeGame.Tree.Position

/-!
Positions in writing. A position is read from its generalized index in decimal or
in hexadecimal behind a marker; it is written as the decimal index alone, or with
its depth and its index at that depth in front.
-/

namespace DisputeGame.Position

open Text

/-- The number that a text without blanks around it spells. -/
def readGindex? : List Char → Option Nat
  | '0' :: 'x' :: body => Numeral.read? 16 body
  | '0' :: 'X' :: body => Numeral.read? 16 body
  | body => Numeral.read? 10 body

def parse (text : String) : Except TreeError Position :=
  let body := Blank.trim text.toList
  match readGindex? body with
  | some gindex => ofGindex gindex
  | none => .error (.invalidGindex (String.ofList body))

def display (p : Position) : String := s!"{p.depth}/{p.index} (gindex {p.gindex})"

end DisputeGame.Position
