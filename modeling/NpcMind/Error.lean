import NpcMind.Uuid

/-!
# What can go wrong

An `Error` is a cause: a refused request that leaves its caller able to go on. A `Fault` is a broken
precondition, after which nothing of the operation's state is meaningful.
-/

namespace NpcMind

/-- A broken precondition. -/
inductive Fault where
  /-- An index or a range past the end. -/
  | outOfBounds
  /-- An interval whose lower end is not below its upper end. -/
  | emptyInterval
  /-- A buffer with more bytes than can be addressed. -/
  | tooLarge
  /-- A number that is not finite, where the policy does not allow one. -/
  | nonFinite (site : String)
  deriving DecidableEq, Repr

/-- Why an operation failed. -/
inductive Error where
  /-- A configuration that is invalid or contradicts itself. -/
  | config (text : String)
  /-- Operands whose sizes do not match. -/
  | dimension (operation : String) (expected got : Nat)
  /-- A bounded resource has no room left. -/
  | exhausted (resource : String) (capacity : Nat)
  /-- A handle outlived the slot it was for. -/
  | staleHandle (index : Nat)
  | unknownAgent (id : Uuid)
  | duplicateAgent (id : Uuid)
  /-- A Fisher entry past the end of the parameters. -/
  | fisherIndex (index : Nat) (parameterCount : Nat)
  | version (expected found : Nat)
  | parameterCount (expected found : Nat)
  /-- A guard found a number that is not finite. -/
  | nonFinite (site : String)
  /-- A document that does not describe what was asked for. -/
  | unreadableDocument
  /-- A configuration text that does not describe a configuration. -/
  | unreadableConfig
  /-- A value that the configuration format cannot hold. -/
  | unwritableConfig
  /-- A file that is not there. -/
  | missingFile
  /-- A broken precondition. -/
  | fault (cause : Fault)
  deriving DecidableEq, Repr

/-- The outcome of an operation that may fail. -/
abbrev Outcome (α : Type) := Except Error α

/-- What an operation gave, or nothing if it failed; only a fault is passed on. -/
def Outcome.tolerate {α : Type} : Outcome α → Outcome (Option α)
  | .ok a => .ok (some a)
  | .error (.fault cause) => .error (.fault cause)
  | .error _ => .ok none

namespace Error

/-- An index or a range past the end, as an error. -/
def outOfBounds : Error := .fault .outOfBounds

/-- The failure is for lack of room, and goes away once room is made. -/
def isCapacity : Error → Bool
  | .exhausted _ _ => true
  | _ => false

/-- The wording of an error, for those that have one. -/
def message? : Error → Option String
  | .config text => some ("Configuration error: " ++ text)
  | .dimension operation expected got =>
    some ("Dimension mismatch in " ++ operation ++ ": expected " ++ toString expected ++ ", got " ++
      toString got)
  | .exhausted resource capacity => some (resource ++ " exhausted (capacity " ++ toString capacity ++ ")")
  | .staleHandle index => some ("Stale handle for slot " ++ toString index)
  | .unknownAgent id => some ("Agent " ++ id.render ++ " not found")
  | .duplicateAgent id => some ("Agent " ++ id.render ++ " already exists")
  | .fisherIndex index count =>
    some ("Fisher index " ++ toString index ++ " out of range for " ++ toString count ++ " parameters")
  | .version expected found =>
    some ("Snapshot version " ++ toString found ++ " is not supported (expected " ++ toString expected ++
      ")")
  | .parameterCount expected found =>
    some ("Parameter count mismatch: expected " ++ toString expected ++ ", got " ++ toString found)
  | .nonFinite site => some ("Non-finite value at " ++ site)
  | .fault (.nonFinite site) => some ("non-finite value in " ++ site)
  | _ => none

end Error

/-- Refuse a size other than the expected one. -/
def expectSize (operation : String) (expected got : Nat) : Outcome Unit :=
  if expected = got then .ok () else .error (.dimension operation expected got)

/-- Refuse an index or a bound that is past the end. -/
def requireWithin (index bound : Nat) : Outcome Unit :=
  if index ≤ bound then .ok () else .error .outOfBounds

/-- Refuse a buffer of `count` items with some bytes each that cannot be addressed: buffers have less than
`2 ^ 63` bytes. -/
def requireRoom (count bytes : Nat) : Outcome Unit :=
  if count * bytes < UInt64.size / 2 then .ok () else .error (.fault .tooLarge)

end NpcMind
