/-!
# Paint

Colors and type styles of a terminal. Painted text stands between the sequence that
turns its style on and the one that turns all styles off; where nothing is painted the
text stays as it is.
-/

namespace Recurrence.Command

/-- A color or type style. -/
inductive Paint where
  | red
  | green
  | yellow
  | cyan
  | brightBlack
  | italic
deriving DecidableEq, Repr

namespace Paint

/-- The number of a style in a terminal's sequences. -/
def code : Paint → String
  | red => "31"
  | green => "32"
  | yellow => "33"
  | cyan => "36"
  | brightBlack => "90"
  | italic => "3"

/-- A text in a style, if `painted`. -/
def apply (painted : Bool) (paint : Paint) (text : List Char) : List Char :=
  if painted then
    Char.ofNat 27 :: '[' :: paint.code.toList ++ 'm' :: text ++ [Char.ofNat 27, '[', '0', 'm']
  else
    text

end Paint

end Recurrence.Command
