import Frontend.BaseType

/-!
# Faults

A fault ends the work at hand: a rewrite broke a rule of the tree, a declaration was used in a way
its kind does not support, or a size left the range of addresses. Errors of the compiled program are
not faults; those are collected.
-/

namespace Frontend

inductive Fault where
  /-- A rewrite removed a node whose parent can't do without it. -/
  | requiredChildRemoved (node : String)
  | loopSourceRemoved
  | variableRemoved (name : String)
  | structureRemoved (name : String)
  | bodyRemoved (function : String)
  /-- A node ended that had not begun. -/
  | unopenedNode
  | replacementClash (what against : String)
  | enumStorage (base : BaseType)
  | valueNotFolded
  | sizeProductOverflow
  | sizeSumOverflow
  /-- Declarations contain themselves without end. -/
  | endless
  deriving DecidableEq, Repr, Inhabited

def Fault.message : Fault → String
  | requiredChildRemoved node => s!"visitor removed {node} from a slot that can't be empty"
  | loopSourceRemoved => "visitor removed a source of a for loop"
  | variableRemoved name => s!"visitor removed variable `{name}` which can't be removed"
  | structureRemoved name => s!"visitor removed structure `{name}`"
  | bodyRemoved function => s!"visitor removed the body of function `{function}`"
  | unopenedNode => "expression closed without being opened"
  | replacementClash what against => s!"replacement {what} clashes with another {against}"
  | enumStorage base => s!"unsupported enumeration base type `{base.name}`"
  | valueNotFolded => "enumeration value was not folded to an integer constant"
  | sizeProductOverflow => "attempt to multiply with overflow"
  | sizeSumOverflow => "attempt to add with overflow"
  | endless => "declarations contain themselves without end"

end Frontend
