import TensorSig.Descriptor.Validity

/-!
# Components

A component is any of the things that a text can denote: a name, a type, a literal, an entry of a
parameter list, a parameter list or a declaration.

* `Component.dump`, `Component.equals`, `Component.check`: the printed form, the equality and the
  check of whichever it is.
-/

namespace TensorSig

/-- Any of the things that a text can denote. -/
inductive Component
  | name (text : String)
  | type (type : ValueType)
  | literal (value : Literal)
  | param (item : ParamItem)
  | params (items : List ParamItem)
  | function (signature : Signature)

namespace Component

/-- The printed form of a component. -/
def dump : Component → List Char
  | name n => Text.quoted n.toList
  | type t => t.dump
  | literal v => v.dump
  | param p => p.dump
  | params ps => Dump.tuple (ps.map ParamItem.dump)
  | function s => s.dump

/-- Whether two components agree in form and in every part. -/
def equals : Component → Component → Bool
  | name m, name n => m == n
  | type s, type t => s.equals t
  | literal v, literal w => v.equals w
  | param p, param q => p.equals q
  | params ps, params qs => ParamItem.equalsAll ps qs
  | function s, function t => s.equals t
  | _, _ => false

/-- The first rule that a component breaks. -/
def check : Component → Except DescriptorFault Unit
  | type t => t.check
  | param p => p.check
  | params ps => ps.forM ParamItem.check
  | function s => s.check
  | _ => .ok ()

end Component

end TensorSig
