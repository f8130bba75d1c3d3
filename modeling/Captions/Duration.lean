/-! # Durations

Times are offsets from the start of a session, counted in whole milliseconds.
-/

namespace Captions.Duration

/-- The digits after the decimal point for a number of thousandths: three of
them, without the zeros at the end. -/
def fraction (thousandths : Nat) : List Char :=
  let digits := [thousandths / 100, thousandths / 10 % 10, thousandths % 10].map Nat.digitChar
  (digits.reverse.dropWhile (· = '0')).reverse

/-- A number of milliseconds as a person reads it: whole and fractional seconds
from one second on, milliseconds below that, and `0ns` for no time at all. -/
def describe (millis : Nat) : String :=
  if millis = 0 then "0ns"
  else if millis < 1000 then toString millis ++ "ms"
  else
    let point := if millis % 1000 = 0 then [] else '.' :: fraction (millis % 1000)
    toString (millis / 1000) ++ String.ofList point ++ "s"

end Captions.Duration
