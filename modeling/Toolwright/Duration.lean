/-!
Spans of time in milliseconds, and their shortest text: seconds from one second on, else
milliseconds.
-/

namespace Toolwright

structure Duration where
  milliseconds : Nat
  deriving DecidableEq, Repr

namespace Duration

/-- Three digits of a fraction without the zeros at the end. -/
def fraction (thousandths : Nat) : String :=
  let digits := (toString (1000 + thousandths)).toList.drop 1
  String.ofList (digits.reverse.dropWhile (· == '0')).reverse

def text (d : Duration) : String :=
  let seconds := d.milliseconds / 1000
  let rest := d.milliseconds % 1000
  if seconds = 0 then if rest = 0 then "0ns" else toString rest ++ "ms"
  else if rest = 0 then toString seconds ++ "s"
  else toString seconds ++ "." ++ fraction rest ++ "s"

end Duration

end Toolwright
