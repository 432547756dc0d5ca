import Credence.Opinion.Discord
import Credence.Record

/-! # Written opinions -/

namespace Credence
variable {R : Type} [Scalar R]

/-- The type that an opinion is written under. -/
inductive OpinionTag where
  | opinion

instance : Named OpinionTag where
  kind := "opinion type"
  all := [.opinion]
  name _ := "Opinion"
  listing := "Opinion"

namespace Opinion

def toRecord (o : Opinion R) : Json R :=
  Json.ofFields [("@type", Named.toJson OpinionTag.opinion), ("belief", .ofScalar o.belief),
    ("disbelief", .ofScalar o.disbelief), ("uncertainty", .ofScalar o.uncertainty),
    ("baseRate", .ofScalar o.baseRate)]

def shape : Shape R :=
  ⟨"OpinionRecord",
    [.required "@type" (Named.ofJson (α := OpinionTag)), .required "belief" Record.readScalar,
     .required "disbelief" Record.readScalar, .required "uncertainty" Record.readScalar,
     .omissible "baseRate" Record.readScalar]⟩

/-- The opinion that the values of a record make, or what they lack. A base rate left out is the
default one. -/
def ofValues (fields : Fields (Json R)) :
    Except (RecordFault R) (Except (OpinionError R) (Opinion R)) := do
  let belief ← Record.required fields "belief" Record.readScalar
  let disbelief ← Record.required fields "disbelief" Record.readScalar
  let uncertainty ← Record.required fields "uncertainty" Record.readScalar
  let baseRate ← Record.omissible fields "baseRate" Record.readScalar defaultBaseRate
  return accept belief disbelief uncertainty baseRate

def ofRecord (value : Json R) : Except (Error R) (Opinion R) :=
  match shape.read value >>= ofValues with
  | .ok accepted => accepted.mapError .opinion
  | .error fault => .error (.validation (.malformed (.badOpinionRecord fault)))

def read (value : Json R) : Except (RecordFault R) (Opinion R) := do
  let fields ← shape.read value
  let accepted ← ofValues fields
  accepted.mapError .refusedOpinion

end Opinion

namespace RobustFusion

def shape : Shape R :=
  ⟨"RobustFusion",
    [.required "fused" Opinion.read, .required "removed" (Record.readList Record.readCount)]⟩

def toRecord (r : RobustFusion R) : Json R :=
  Json.ofFields [("fused", r.fused.toRecord), ("removed", .array (r.removed.map .ofNat))]

def read (value : Json R) : Except (RecordFault R) (RobustFusion R) := do
  let fields ← shape.read value
  let fused ← Record.required fields "fused" Opinion.read
  let removed ← Record.required fields "removed" (Record.readList Record.readCount)
  return ⟨fused, removed⟩

end RobustFusion
end Credence
