import ApiBindings.Document.Value
import ApiBindings.Numeric.Binary64.Shortest
import ApiBindings.Text.Literal

/-!
Values as text. The literal form quotes texts and names the kind of dates; the plain form of a
text is the text itself, and collections always hold literals.
-/

namespace ApiBindings

namespace Date

def literal (d : Date) : String :=
  "datetime.date(" ++ Text.joinWith ", " ([d.year, d.month, d.day].map Text.ofNat) ++ ")"

end Date

namespace DateTime

/-- A distance as whole days and the seconds left, which are never negative. -/
def offsetLiteral (offset : Int) : String :=
  if offset = 0 then "datetime.timezone.utc"
  else
    let days := offset / 86400
    let seconds := offset % 86400
    let parts := (if days = 0 then [] else ["days=" ++ Text.ofInt days])
      ++ (if seconds = 0 then [] else ["seconds=" ++ Text.ofInt seconds])
    "datetime.timezone(datetime.timedelta(" ++ Text.joinWith ", " parts ++ "))"

def literal (t : DateTime) : String :=
  let seconds := if t.second = 0 ∧ t.microsecond = 0 then [] else [t.second]
  let fraction := if t.microsecond = 0 then [] else [t.microsecond]
  let fields := [t.date.year, t.date.month, t.date.day, t.hour, t.minute] ++ seconds ++ fraction
  let zone := match t.offset with
    | some o => ["tzinfo=" ++ offsetLiteral o]
    | none => []
  "datetime.datetime(" ++ Text.joinWith ", " (fields.map Text.ofNat ++ zone) ++ ")"

end DateTime

def TimeOfDay.literal (t : TimeOfDay) : String :=
  let seconds := if t.second = 0 ∧ t.microsecond = 0 then [] else [t.second]
  let fraction := if t.microsecond = 0 then [] else [t.microsecond]
  "datetime.time("
    ++ Text.joinWith ", " (([t.hour, t.minute] ++ seconds ++ fraction).map Text.ofNat)
    ++ ")"

namespace Scalar

def literal : Scalar → String
  | .null => "None"
  | .bool b => if b then "True" else "False"
  | .int n => Text.ofInt n
  | .float x => x.text
  | .str s => Text.literal s
  | .date d => d.literal
  | .dateTime t => t.literal
  | .time t => t.literal
  | .bytes bs => Text.bytesLiteral bs

def text : Scalar → String
  | .str s => s
  | .date d => d.text
  | .dateTime t => t.text " "
  | .time t => t.text
  | s => s.literal

end Scalar

namespace Value

mutual

def literal : Value → String
  | .scalar s => s.literal
  | .list items => "[" ++ Text.joinWith ", " (literals items) ++ "]"
  | .map _ es => "\x7b" ++ Text.joinWith ", " (entryLiterals es) ++ "\x7d"
  | .set [] => "set()"
  | .set ms => "\x7b" ++ Text.joinWith ", " (ms.map Scalar.literal) ++ "\x7d"
  | .pair a b => "(" ++ literal a ++ ", " ++ literal b ++ ")"

def literals : List Value → List String
  | [] => []
  | v :: vs => literal v :: literals vs

def entryLiterals : List (Scalar × Value) → List String
  | [] => []
  | (k, v) :: es => (k.literal ++ ": " ++ literal v) :: entryLiterals es

end

def text : Value → String
  | .scalar s => s.text
  | v => v.literal

def kindName : Value → String
  | .scalar .null => "NoneType"
  | .scalar (.bool _) => "bool"
  | .scalar (.int _) => "int"
  | .scalar (.float _) => "float"
  | .scalar (.str _) => "str"
  | .scalar (.date _) => "date"
  | .scalar (.dateTime _) => "datetime"
  | .scalar (.time _) => "time"
  | .scalar (.bytes _) => "bytes"
  | .list _ => "list"
  | .map .. => "dict"
  | .set _ => "set"
  | .pair .. => "tuple"

end Value

end ApiBindings
