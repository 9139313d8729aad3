/-!
# Source spans

A span is a range of bytes of one source file, or points nowhere when the declaration it belongs to
was registered by native code. Spans of one file merge to the span that covers both.
-/

namespace Frontend

inductive SourceFile where
  /-- Declarations without source text. -/
  | builtin
  | source (index : Nat)
  deriving DecidableEq, Repr, Inhabited

/-- A range of bytes, its end excluded. -/
structure Span where
  file : SourceFile
  start : Nat
  stop : Nat
  deriving DecidableEq, Repr, Inhabited

namespace Span

/-- The span that points nowhere. -/
def builtin : Span := ⟨.builtin, 0, 0⟩

def inFile (index start stop : Nat) : Span := ⟨.source index, start, stop⟩

def isBuiltin (s : Span) : Bool := s.file == .builtin

/-- The span that covers both; spans of different files do not merge and the first one stays. -/
def merge (s t : Span) : Span :=
  if s.file = t.file then ⟨s.file, min s.start t.start, max s.stop t.stop⟩ else s

def text (s : Span) : String :=
  match s.file with
  | .builtin => "<builtin>"
  | .source index => s!"#{index}:{s.start}..{s.stop}"

end Span

end Frontend
