import ApiBindings.Document.Access
import ApiBindings.Files.Tree

/-!
Where the text of a document comes from: a file, or a page of the web. The format is known from
the ending of the file, or from what the page says.
-/

namespace ApiBindings

structure SourceText where
  text : String
  format : String

structure WebRequest where
  url : String
  userAgent : String
  timeoutSeconds : Nat
  followsRedirects : Bool

def WebRequest.of (url : String) : WebRequest := ⟨url, "openapi-tsgen-importer", 30, true⟩

structure WebResponse where
  status : Int
  contentType : Option String
  text : String

/-- The answers of the web; none where no answer comes. -/
abbrev Web := WebRequest → Option WebResponse

namespace SourceText

def ofFile (tree : FileTree) (path : String) : Except Fault SourceText :=
  match Path.misuse? path with
  | some misuse => .error (.misuse misuse)
  | none =>
    match tree.read path with
    | .ok text => .ok ⟨text, Path.format path⟩
    | .error problem => .error (.because (.unreadableFile path problem))

/-- The text of a page. Only an answer of success counts. -/
def ofPage (web : Web) (url : String) : Except Fault SourceText :=
  match web (.of url) with
  | none => .error (.because (.unreachable url))
  | some response =>
    if 200 ≤ response.status ∧ response.status < 300 then
      let isJson := Text.endsWith ".json" url
        || Text.beginsWith "application/json" (response.contentType.getD "")
      .ok ⟨Text.receivedText response.text, if isJson then "json" else "yaml"⟩
    else .error (.because (.unreachable url))

def of (tree : FileTree) (web : Web) (file url : Value) : Except Fault SourceText :=
  if file.isFilled then
    match file with
    | .scalar (.str path) => ofFile tree path
    | _ => .error (.misuse .wrongKind)
  else if url.isFilled then
    match url with
    | .scalar (.str page) => ofPage web page
    | _ => .error (.misuse .wrongKind)
  else .error (.because .noSource)

end SourceText

end ApiBindings
