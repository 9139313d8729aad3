/-!
# S-expressions

Trees of atoms for compact dumps. A tree has a flat text on one line and a pretty text that breaks
lists which do not fit the width, one element a line.
-/

namespace Frontend

inductive Sexp where
  | atom (text : String)
  | list (elements : List Sexp)
  deriving Inhabited

namespace Sexp

/-- Appends to a list; an atom first becomes the list of itself. -/
def push : Sexp → Sexp → Sexp
  | .list es, e => .list (es ++ [e])
  | .atom a, e => .list [.atom a, e]

mutual

/-- The text on one line, elements separated by one space. -/
def flat : Sexp → String
  | .atom a => a
  | .list [] => "()"
  | .list (e :: es) => "(" ++ e.flat ++ flatRest es ++ ")"

def flatRest : List Sexp → String
  | [] => ""
  | e :: es => " " ++ e.flat ++ flatRest es

end

/-- Whether a tree is broken when it starts at column `indent`: it has more than one element and its
flat text, in bytes, passes the width. -/
def breaks (s : Sexp) (indent width : Nat) : Bool :=
  match s with
  | .list (_ :: _ :: _) => decide (width < indent + s.flat.utf8ByteSize)
  | _ => false

mutual

def prettyAt (width indent : Nat) : Sexp → String
  | .atom a => a
  | .list [] => "()"
  | .list (e :: es) =>
    if (Sexp.list (e :: es)).breaks indent width then
      "(" ++ e.prettyAt width (indent + 1) ++ prettyRest width (indent + 1) es ++ ")"
    else (Sexp.list (e :: es)).flat

def prettyRest (width indent : Nat) : List Sexp → String
  | [] => ""
  | e :: es =>
    "\n" ++ "".pushn ' ' indent ++ e.prettyAt width indent ++ prettyRest width indent es

end

/-- The text broken to fit `width` columns where it can be. -/
def pretty (s : Sexp) (width : Nat) : String := s.prettyAt width 0

def ofAtoms (atoms : List String) : Sexp := .list (atoms.map .atom)

end Sexp

end Frontend
