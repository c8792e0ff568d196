import ApiBindings.Yaml.Node.Composed
import ApiBindings.Yaml.Token.Lexer

/-!
The one document of a text, if it has any. Directives before a document give its tag handles.
-/

namespace ApiBindings.Yaml

def skipEnds : List Token → List Token
  | .documentEnd :: rest => skipEnds rest
  | ts => ts

/-- The tag handles of the directives, and the rest behind them. A version is given at most once,
and its major number is one. -/
def readDirectives (versioned : Bool) (handles : List (String × String)) :
    List Token → Except Defect (List (String × String) × List Token)
  | .directive (.version major) :: rest =>
    if versioned || major != 1 then .error .malformed else readDirectives true handles rest
  | .directive (.tagHandle handle root) :: rest =>
    if (handles.lookup handle).isSome then .error .malformed
    else readDirectives versioned ((handle, root) :: handles) rest
  | .directive .other :: rest => readDirectives versioned handles rest
  | ts => do
    usable ts
    return (handles, ts)

def finishDocument (ts : List Token) : Except Defect Unit :=
  match skipEnds ts with
  | [] => .ok ()
  | ts => do
    let (_, rest) ← readDirectives false [] ts
    unexpected rest

def readBareDocument (ts : List Token) : Except Defect Node := do
  let root ← readNode .item (.start []) ts
  finishDocument root.rest
  return root.value

def readMarkedDocument (ts : List Token) : Except Defect Node := do
  let (handles, rest) ← readDirectives false [] ts
  match rest with
  | .documentStart :: content =>
    usable content
    let isEmpty := match content with
      | [] => true
      | .directive _ :: _ => true
      | .documentStart :: _ => true
      | .documentEnd :: _ => true
      | _ => false
    if isEmpty then
      finishDocument content
      return vacant
    else
      let root ← readNode .item (.start handles) content
      finishDocument root.rest
      return root.value
  | rest => unexpected rest

def readDocument (ts : List Token) : Except Defect (Option Node) := do
  usable ts
  match ts with
  | [] => return none
  | .directive _ :: _ => some <$> readMarkedDocument ts
  | .documentStart :: _ => some <$> readMarkedDocument ts
  | _ => some <$> readBareDocument ts

end ApiBindings.Yaml
