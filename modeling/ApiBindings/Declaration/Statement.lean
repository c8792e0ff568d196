import ApiBindings.Text.Basic

/-!
Exported statements, and the blocks of code that are made of them. Every name that a file exports
is the name of one statement.
-/

namespace ApiBindings.Declaration

inductive Kind where
  | interface
  | typeAlias
  | constant
deriving DecidableEq

def Kind.keyword : Kind → String
  | .interface => "interface"
  | .typeAlias => "type"
  | .constant => "const"

/-- One exported statement, with its comment and the empty lines around it. -/
structure Statement where
  before : String
  kind : Kind
  name : String
  after : String

namespace Statement

def text (s : Statement) : String :=
  s.before ++ "export " ++ s.kind.keyword ++ " " ++ s.name ++ s.after

def onLines (s : Statement) : Statement :=
  { s with before := "\n" ++ s.before, after := s.after ++ "\n" }

end Statement

/-- Statements in order, with the text around and between them. -/
structure Block where
  opening : String
  statements : List Statement
  separator : String
  ending : String

namespace Block

def empty : Block := ⟨"", [], "", ""⟩

def text (b : Block) : String :=
  b.opening ++ Text.joinWith b.separator (b.statements.map Statement.text) ++ b.ending

def names (b : Block) : List String := b.statements.map (·.name)

end Block

end ApiBindings.Declaration
