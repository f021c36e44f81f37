/-!
# Positions in a source

A span is as much of a position as is known. An empty file name counts as unknown
wherever a name is shown.
-/

namespace ContractGuard

structure Span where
  file : Option String := none
  line : Option Int := none
  column : Option Int := none
  endLine : Option Int := none
  endColumn : Option Int := none
deriving DecidableEq

def fileName? : Option String → Option String
  | some "" => none
  | file => file

/-- A position record of another tool, which may name its file in either field. -/
structure Landmark where
  file : Option String := none
  fileName : Option String := none
  line : Option Int := none
  column : Option Int := none
  endLine : Option Int := none
  endColumn : Option Int := none
deriving DecidableEq

inductive Location where
  | unknown
  | known (span : Span)
  | foreign (landmark : Landmark)
deriving DecidableEq

def Location.isForeign : Location → Bool
  | .foreign _ => true
  | _ => false

namespace Span

def ofLandmark (file : Option String) (mark : Landmark) : Span :=
  ⟨fileName? file <|> fileName? mark.file <|> fileName? mark.fileName,
    mark.line, mark.column, mark.endLine, mark.endColumn⟩

/-- A span is kept as it is; the file given beside a landmark wins over its own. -/
def ofLocation (file : Option String) : Location → Span
  | .unknown => { file }
  | .known span => span
  | .foreign mark => ofLandmark file mark

def fileOr (span : Span) (default : Option String) : Option String :=
  fileName? span.file <|> default

/-- A column says nothing without its line. -/
def describe (span : Span) : String :=
  let file := (fileName? span.file).getD "<input>"
  match span.line, span.column with
  | none, _ => file
  | some line, none => file ++ ":" ++ toString line
  | some line, some column => file ++ ":" ++ toString line ++ ":" ++ toString column

end Span

end ContractGuard
