import Coordin8.Core.Records
import Coordin8.Support.Text

/-!
# Template matching

A template maps field names to operators, written as strings: `contains:x`,
`starts_with:x`, the wildcards `*` and the empty string, or a literal value.
Every service matches records against templates through this module.
-/

namespace Coordin8

open Support

inductive MatchOp where
  | eq (expected : String)
  | contains (sub : String)
  | startsWith (start : String)
  | any
deriving DecidableEq, Repr

def MatchOp.matches : MatchOp → String → Bool
  | .eq expected, value => value == expected
  | .contains sub, value => value.toList.tails.any sub.toList.isPrefixOf
  | .startsWith start, value => start.toList.isPrefixOf value.toList
  | .any, _ => true

/-- The operator a template value stands for. -/
def parseOp (v : String) : MatchOp :=
  if v = "" ∨ v = "*" then
    .any
  else
    match stripPrefix "contains:" v with
    | some rest => .contains rest
    | none =>
        match stripPrefix "starts_with:" v with
        | some rest => .startsWith rest
        | none => .eq v

def parseTemplate (template : Attrs) : DashMap String MatchOp :=
  template.map fun _ v => parseOp v

/-- All fields of the template are satisfied.  A field the attributes lack is
a mismatch unless its operator is the wildcard. -/
def templateMatches (ops : DashMap String MatchOp) (attrs : Attrs) : Bool :=
  ops.toList.all fun entry =>
    match attrs[entry.1]? with
    | some value => entry.2.matches value
    | none => entry.2 == .any

end Coordin8
