import Credence.Scalar.Binary64

/-! # Double-precision numbers rank in a total order -/

namespace Credence.Binary64

instance : Std.TransCmp (Scalar.rank (R := Float)) :=
  inferInstanceAs (Std.TransCmp (compareOn (fun x : Float => rankKey x.toBits)))

end Credence.Binary64
