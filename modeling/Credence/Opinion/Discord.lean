import Credence.Opinion.Fusion
import Credence.Scalar.Leader

/-! # Discord

The opinion that contradicts the others most is dropped before fusion, one at a time, as long as
its discord exceeds a threshold, at least three opinions remain and the limit on removals is not
reached.
-/

namespace Credence
variable {R : Type} [Scalar R]

namespace Opinion

/-- The mass with which two opinions contradict each other. -/
def conflict (x y : Opinion R) : R := x.belief * y.disbelief + x.disbelief * y.belief

structure Placed (R : Type) [Scalar R] where
  index : Nat
  opinion : Opinion R

/-- The mean conflict of an opinion with all others of a list. -/
def discord (remaining : List (Placed R)) (x : Placed R) : R :=
  let others := remaining.filter (fun y => y.index != x.index)
  Scalar.sum (others.map (fun y => conflict x.opinion y.opinion)) /
    ((remaining.length - 1 : Nat) : R)

/-- The most discordant opinion of a list and its discord; the first one of several. -/
def mostDiscordant? (remaining : List (Placed R)) : Option (Placed R × R) :=
  match remaining.map (fun x => (x, discord remaining x)) with
  | [] => none
  | first :: rest => some (leader (fun next best => best.2 < next.2) first rest)

/-- The positions removed, in the order of removal, and the opinions that remain. -/
def dropDiscordant (threshold : R) : Nat → List (Placed R) → List Nat × List (Placed R)
  | 0, remaining => ([], remaining)
  | limit + 1, remaining =>
    if remaining.length < 3 then ([], remaining)
    else
      match mostDiscordant? remaining with
      | none => ([], remaining)
      | some (worst, discord) =>
        if discord ≤ threshold then ([], remaining)
        else
          let rest := remaining.filter (fun y => y.index != worst.index)
          let (removed, kept) := dropDiscordant threshold limit rest
          (worst.index :: removed, kept)

def place (opinions : List (Opinion R)) : List (Placed R) :=
  opinions.zipIdx.map (fun (o, i) => ⟨i, o⟩)

end Opinion

structure RobustFusion (R : Type) [Scalar R] where
  fused : Opinion R
  /-- Positions in the input, in the order of removal. -/
  removed : List Nat

namespace Opinion

/-- Cumulative fusion without the most discordant opinions; at most half of them are dropped where
no limit is given. -/
def robustFuse (opinions : List (Opinion R)) (threshold : R) (limit : Option Nat) :
    Except (Error R) (RobustFusion R) := do
  if opinions.isEmpty then throw (.validation (.emptyInput .opinionsToFuse))
  validated (checkScore .discordThreshold threshold)
  let (removed, kept) :=
    dropDiscordant threshold (limit.getD (opinions.length / 2)) (place opinions)
  let fused ← cumulativeFuse (kept.map Placed.opinion)
  return ⟨fused, removed⟩

end Opinion
end Credence
