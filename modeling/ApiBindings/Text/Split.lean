import ApiBindings.Text.Basic

/-!
Splitting texts at separators, and putting pieces together again.
-/

namespace ApiBindings.Text

/-- The pieces between the occurrences of `sep`, found from the left; the beginning of the first
one is read already, backwards. -/
def splitOnFrom (sep : List Char) (begun : List Char) (s : List Char) : List (List Char) :=
  match s with
  | [] => [begun.reverse]
  | c :: cs =>
    if sep.isEmpty then [begun.reverse ++ c :: cs]
    else match _h : after? sep (c :: cs) with
      | some rest => begun.reverse :: splitOnFrom sep [] rest
      | none => splitOnFrom sep (c :: begun) cs
termination_by s.length
decreasing_by
  · have := length_le_of_after? ‹_›
    cases sep with
    | nil => simp_all
    | cons a as => simp only [List.length_cons] at this ⊢; omega
  · simp

def splitOn (sep s : List Char) : List (List Char) := splitOnFrom sep [] s

def glue (sep : List Char) : List (List Char) → List Char
  | [] => []
  | [x] => x
  | x :: y :: rest => x ++ sep ++ glue sep (y :: rest)

/-- The first `most` pieces, and what is left behind them. -/
def splitMost (sep : List Char) (most : Nat) (s : List Char) : List (List Char) :=
  let all := splitOn sep s
  if all.length ≤ most then all else all.take most ++ [glue sep (all.drop most)]

def occurrences (sep s : List Char) : Nat := (splitOn sep s).length - 1

/-- Whether an odd number of backslashes ends a text that is written backwards. -/
def endsEscaped (backwards : List Char) : Bool :=
  (backwards.takeWhile (· == '\\')).length % 2 == 1

end ApiBindings.Text
