import ApiBindings.Yaml.Glyph

/-!
Plain scalars: text without quotes. A line break within one is folded into a space, and empty
lines are kept as breaks.
-/

namespace ApiBindings.Yaml

def isFlowEnd (c : Char) : Bool :=
  c == ',' || c == '?' || c == '[' || c == ']' || c == '\x7b' || c == '\x7d'

def endsKey (inFlow : Bool) (c : Char) : Bool := isGap c || (inFlow && c != '?' && isFlowEnd c)

def endsRun (inFlow : Bool) (c next : Char) : Bool :=
  isGap c || (c == ':' && endsKey inFlow next) || (inFlow && isFlowEnd c)

def plainRun (inFlow : Bool) : (s : List Glyph) → Lexed (List Char) s
  | [] => .stay [] []
  | g :: rest =>
    if endsRun inFlow g.char (peek rest) then .stay [] (g :: rest)
    else ((plainRun inFlow rest).map (g.char :: ·)).behind g

inductive PlainGap where
  | final
  | text (chars : List Char)

/-- The breaks after a first one, with the spaces around them. A separator of documents ends the
scalar. -/
def plainBreaks (fresh : Bool) : (s : List Glyph) → Lexed (Option (List Char)) s
  | [] => .stay (some []) []
  | g :: rest =>
    if fresh && isSeparator (g :: rest) then .stay none (g :: rest)
    else if g.char == ' ' then (plainBreaks false rest).behind g
    else if isBreak g.char then
      ((plainBreaks true rest).map fun breaks => breaks.map (g.char :: ·)).behind g
    else .stay (some []) (g :: rest)

def foldBreaks (first : Char) (breaks : List Char) : List Char :=
  if first != '\n' then first :: breaks
  else if breaks.isEmpty then [' ']
  else breaks

def plainGap (s : List Glyph) : Lexed (PlainGap × Bool) s :=
  let spaces := takeRun (· == ' ') s
  match h : spaces.rest with
  | [] => .stay (.final, false) s
  | g :: rest =>
    if isBreak g.char then
      let breaks := plainBreaks true rest
      let gap := match breaks.value with
        | none => .final
        | some more => .text (foldBreaks g.char more)
      ⟨(gap, true), breaks.rest,
        Nat.le_trans breaks.le (Nat.le_of_lt (spaces.length_lt_of_rest_eq_cons h))⟩
    else if spaces.value.isEmpty then .stay (.final, false) s
    else ⟨(.text spaces.value, false), spaces.rest, spaces.le⟩

def isIndented (indent : Int) (s : List Glyph) : Bool :=
  match s with
  | [] => true
  | g :: _ => indent ≤ g.column

/-- The text of a plain scalar after its first glyph, and whether it ends behind a line break.
Outside of brackets its lines must reach the column `indent`. -/
def plainRest (inFlow : Bool) (indent : Int) (s : List Glyph) : Lexed (List Char × Bool) s :=
  let run := plainRun inFlow s
  let gap := plainGap run.rest
  let stop : Lexed (List Char × Bool) s :=
    ⟨(run.value, gap.value.2), gap.rest, Nat.le_trans gap.le run.le⟩
  match gap.value.1 with
  | .final => stop
  | .text between =>
    if peek gap.rest == '#' || (!inFlow && !isIndented indent gap.rest) then stop
    else
      match h : gap.rest with
      | [] => stop
      | g :: rest =>
        if endsRun inFlow g.char (peek rest) then stop
        else
          have shorter : rest.length < s.length := by
            have := run.le; have := gap.le
            simp only [h, List.length_cons] at *; omega
          let more := plainRest inFlow indent rest
          ⟨(run.value ++ between ++ g.char :: more.value.1, more.value.2), more.rest,
            Nat.le_of_lt (Nat.lt_of_le_of_lt more.le shorter)⟩
termination_by s.length

end ApiBindings.Yaml
