import ApiBindings.Log

/-!
Findings about a document: errors, which a strict check does not accept, and warnings.
-/

namespace ApiBindings.Lint

structure Issue where
  message : String
  path : String
deriving DecidableEq

structure Report where
  errors : List Issue
  warnings : List Issue

namespace Report

def empty : Report := ⟨[], []⟩

def isClean (r : Report) : Bool := r.errors.isEmpty

def error (message path : String) : Report := ⟨[⟨message, path⟩], []⟩

def warning (message path : String) : Report := ⟨[], [⟨message, path⟩]⟩

def append (r s : Report) : Report := ⟨r.errors ++ s.errors, r.warnings ++ s.warnings⟩

instance : Append Report := ⟨append⟩

def all : List Report → Report
  | [] => empty
  | r :: rs => r ++ all rs

def line (issue : Issue) : String :=
  "Message : " ++ issue.message ++ " | Path : " ++ issue.path

/-- The report as events, warnings first. -/
def events (r : Report) : Log :=
  r.warnings.map (fun i => ⟨.warning, .lint, line i⟩)
    ++ r.errors.map (fun i => ⟨.error, .lint, line i⟩)

end Report

end ApiBindings.Lint
