/-! # Digits

The number that decimal digits spell, and whole numbers written to a fixed width.
-/

namespace Credence.Text

def digitsValue (cs : List Char) : Nat :=
  cs.foldl (fun n c => n * 10 + (c.toNat - '0'.toNat)) 0

/-- A number with zeros before it up to a width. -/
def padded (width n : Nat) : String :=
  let text := toString n
  String.ofList (List.replicate (width - text.length) '0') ++ text

end Credence.Text
