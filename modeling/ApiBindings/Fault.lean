import ApiBindings.Text.Literal
import ApiBindings.Text.Uppercase

/-!
Everything that can end a run early. A failure is a cause that the program reports in its own
words, with the place of the document where it was met; a misuse is a value that does not
support what the document asks of it; a file fault comes from the file system. A text that has no
value in its format has a defect.
-/

namespace ApiBindings

inductive FileProblem where
  | notFound
  | exists
  | notADirectory
  | isADirectory
  | nameTooLong
deriving DecidableEq

namespace FileProblem

def text : FileProblem → String
  | .notFound => "[Errno 2] No such file or directory"
  | .exists => "[Errno 17] File exists"
  | .notADirectory => "[Errno 20] Not a directory"
  | .isADirectory => "[Errno 21] Is a directory"
  | .nameTooLong => "[Errno 36] File name too long"

def report (p : FileProblem) (path : String) : String := p.text ++ ": " ++ Text.literal path

end FileProblem

inductive Misuse where
  /-- A value without entries, or that is no text, is used as if it had or were. -/
  | noSuchOperation
  /-- Operands of kinds that do not go together, or a collection where a key is needed. -/
  | wrongKind
  /-- A record field of a declared kind is given a value of another kind. -/
  | rejectedField
  /-- A text or number outside of the range of what it stands for. -/
  | invalidValue
  /-- A text with one half of a surrogate pair is written. -/
  | unencodable
  | tooLarge
  | missingKey
  | missingItem
  | abstractExpression
  | endlessDocument
deriving DecidableEq

inductive Cause where
  | unsupportedReference (ref : String)
  | missingOperationId (verb route : String)
  | duplicateOperationId (id : String)
  | missingItems
  | unsupportedDiscriminator (ref : String)
  | unresolvedPathParameter (name operationId : String)
  | unnameable (text : String)
  | rejectedByLint (errors : Nat)
  | unreadableFile (path : String) (problem : FileProblem)
  | unreachable (url : String)
  /-- The text of a document has no meaning in its format; `detail` says where, if it is known. -/
  | malformedDocument (format : String) (detail : Option String)
  | notAnObject (kind : String)
  | transformedToNoObject
  | unsupportedVersion (literal : String)
  | noSource
  | unknownFormat (literal : String)
  | unknownEncodingMode (literal : String)
  | unknownSettings (literal : String)
  | malformedConfig (path : String)
  | severalTargets (path : String)
  | malformedExtensionPath (path : String)
  | missingExtensionModule (name : String)
  | notCallable (path : String)
deriving DecidableEq

namespace Cause

def message : Cause → String
  | .unsupportedReference ref =>
    "Поддерживаются только $ref внутри `#/components/*`, получено: " ++ Text.literal ref
  | .missingOperationId verb route =>
    "Каждая операция должна иметь operationId - не задан для " ++ Text.upper verb ++ " " ++ route
  | .duplicateOperationId id => "\"" ++ id ++ "\" дублируется в описании схемы"
  | .missingItems => "Для каждого массива должен быть задан ключ `items`"
  | .unsupportedDiscriminator ref =>
    "Discriminator mapping вне `#/components/schemas` не поддерживается: " ++ Text.literal ref
  | .unresolvedPathParameter name id =>
    "Параметр пути " ++ Text.literal name ++ " не найден среди параметров (" ++ id ++ ")"
  | .unnameable text => "Не удалось построить имя типа из " ++ Text.literal text
  | .rejectedByLint errors => "Спецификация не прошла проверку: " ++ Text.ofNat errors ++ " ошибок"
  | .unreadableFile path problem =>
    "Не удалось прочитать " ++ path ++ ": " ++ problem.report path
  | .unreachable url => "Не удалось загрузить спецификацию из " ++ url
  | .malformedDocument format detail =>
    "Не удалось разобрать спецификацию (" ++ format ++ ")"
      ++ (match detail with | some d => ": " ++ d | none => "")
  | .notAnObject kind => "Спецификация должна быть объектом, получено: " ++ kind
  | .transformedToNoObject => "transformer должен вернуть документ в виде словаря"
  | .unsupportedVersion literal =>
    "Поддерживается только OpenAPI 3.0.x, получено: " ++ literal
      ++ ". Сконвертируйте документ перед генерацией"
  | .noSource => "Укажите спецификацию через file или url"
  | .unknownFormat literal => "Неизвестный формат " ++ literal ++ ", ожидается yaml или json"
  | .unknownEncodingMode literal =>
    "Неизвестный режим кодирования " ++ literal
      ++ ", ожидается один из ('uriComponent', 'rfc3986')"
  | .unknownSettings literal => "Неизвестные параметры конфигурации: " ++ literal
  | .malformedConfig path => "Некорректный toml в " ++ path
  | .severalTargets path => "В " ++ path ++ " несколько целей, используйте load_targets"
  | .malformedExtensionPath path =>
    "Ожидается путь вида module:attribute, получено " ++ Text.literal path
  | .missingExtensionModule name => "Не удалось импортировать " ++ name
  | .notCallable path => path ++ " не является вызываемым объектом"

end Cause

inductive Fault where
  | failure (cause : Cause) (location : Option String)
  | misuse (m : Misuse)
  | file (problem : FileProblem) (path : String)
deriving DecidableEq

namespace Fault

abbrev because (cause : Cause) : Fault := .failure cause none

abbrev located (cause : Cause) (location : String) : Fault := .failure cause (some location)

/-- The report of a failure: the place in brackets, unless it is missing or empty. -/
def report (cause : Cause) (location : Option String) : String :=
  match location with
  | some place => if place = "" then cause.message else "[" ++ place ++ "] " ++ cause.message
  | none => cause.message

end Fault

/-- Why a text has no value in its format. -/
inductive Defect where
  /-- The text breaks the rules of the format. -/
  | malformed
  /-- A part of the text has the form of a value and is none. -/
  | misuse (m : Misuse)
deriving DecidableEq

end ApiBindings
