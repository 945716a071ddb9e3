import NpcMind.Config.Codec
import NpcMind.Document.Json.Printer
import NpcMind.Document.Toml.Reader

/-!
# Configurations as TOML

A configuration text needs only the values that differ from the defaults. Integers are signed 64-bit in
this format, so a larger count cannot be written.

A word may also be given as a table whose only key it is, with nothing below it. A section may be given
as a list of its settings in order; what the list has beyond them is passed over.
-/

namespace NpcMind

/-- A setting in TOML. -/
def Setting.toToml : Setting → Outcome String
  | .count n => count n
  | .counts ns => do return "[" ++ ", ".intercalate (← ns.mapM count) ++ "]"
  | .single x =>
    .ok (if x.isFinite then (Decimal.ofDouble x.toFloat).render
      else if x.isNaN then "nan"
      else if x < 0 then "-inf"
      else "inf")
  | .word s => .ok (Json.quote s)
where
  /-- A count, if it fits. -/
  count (n : Nat) : Outcome String :=
    if n < UInt64.size / 2 then .ok (toString n) else .error .unwritableConfig

/-- A setting as TOML gives it, in the form that all formats share. -/
def Setting.ofToml (s : Setting) (d : Document) : Document :=
  match s, d with
  | .word _, .record [(name, .record [])] => .text name
  | .word _, .record [(name, .list [])] => .text name
  | _, d => d

namespace Config

/-- A section as TOML gives it, in the form that all formats share. -/
def sectionOfToml (settings : List (String × Setting)) : Document → Document
  | .list items => .record (List.zipWith (fun (name, s) d => (name, s.ofToml d)) settings items)
  | .record fields =>
    .record (fields.map fun (name, d) => (name, ((settings.lookup name).map (·.ofToml d)).getD d))
  | d => d

/-- A configuration as TOML gives it, in the form that all formats share. -/
def documentOfToml : Document → Document
  | .record fields =>
    let sections := ({} : Config).sections
    .record (fields.map fun (name, d) => (name, ((sections.lookup name).map (sectionOfToml · d)).getD d))
  | d => d

/-- The configuration in TOML. -/
def toToml (c : Config) : Outcome String := do
  let parts ← c.sections.mapM fun (name, settings) => do
    let lines ← settings.mapM fun (key, s) => do return key ++ " = " ++ (← s.toToml) ++ "\n"
    return "[" ++ name ++ "]\n" ++ String.join lines
  return String.join parts

/-- The configuration that a TOML text describes, if a society can run with it. -/
def ofToml (text : String) : Outcome Config := do
  let some d := Document.ofToml? text | throw .unreadableConfig
  let some c := (Codec.decode? (documentOfToml d) : Option Config) | throw .unreadableConfig
  c.validate
  return c

end Config

end NpcMind
