import NpcMind.Error
import NpcMind.Single

/-!
# Guarding against numbers that are not finite

After each stage of a computation a guard looks at the result. It either replaces what is not finite
or refuses to go on.
-/

namespace NpcMind

/-- What to do about a number that is not finite. -/
inductive Guard where
  /-- Refuse to go on. -/
  | halt
  /-- Replace NaN by zero and infinities by large numbers. -/
  | sanitize
  deriving DecidableEq, Repr

namespace Guard

instance : Inhabited Guard := ⟨.sanitize⟩

/-- The name of a policy. -/
def name : Guard → String
  | .halt => "panic"
  | .sanitize => "sanitize"

instance : Named Guard := ⟨[.halt, .sanitize], name⟩

instance : Codec Guard := Named.codec

/-- The number that infinities are replaced by. -/
def limit : Float32 := 1e6

/-- A finite number in place of a value. -/
def repair (x : Float32) : Float32 :=
  if x.isNaN then 0
  else if x.isInf then (if x < 0 then -limit else limit)
  else x

/-- How many values are not finite. -/
def defects (xs : Vec) : Nat := xs.foldl (fun n x => if x.isFinite then n else n + 1) 0

/-- The values with those replaced that are not finite, and their number. -/
def check (g : Guard) (site : String) (xs : Vec) : Outcome (Nat × Vec) :=
  if Vec.isFinite xs then .ok (0, xs)
  else
    match g with
    | .halt => .error (.fault (.nonFinite site))
    | .sanitize => .ok (defects xs, xs.map repair)

/-- Refuse values that are not finite, whatever the policy. -/
def verify (site : String) (xs : Vec) : Outcome Unit :=
  if Vec.isFinite xs then .ok () else .error (.nonFinite site)

end Guard

end NpcMind
