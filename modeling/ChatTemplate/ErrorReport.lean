import ChatTemplate.Pos
import ChatTemplate.Text

/-! # What a caller learns of an error -/

namespace ChatTemplate

inductive ErrorKind
  | lexical
  | malformed
  | missingToken
  | runtime
  | evaluation
  | unknownFilter
  | unknownTest
deriving DecidableEq, Repr

/-- The public name of a kind of error. -/
def ErrorKind.label : ErrorKind → String
  | .lexical => "LexError"
  | .malformed => "TemplateSyntaxError"
  | .missingToken => "ParseError"
  | .runtime => "TemplateRuntimeError"
  | .evaluation => "TemplateEvaluationError"
  | .unknownFilter => "UnknownFilterError"
  | .unknownTest => "UnknownTestError"

structure ErrorReport where
  kind : ErrorKind
  message : Text
  pos : Option Pos
deriving DecidableEq, Repr

def ErrorReport.line (e : ErrorReport) : Text := (e.kind.label ++ ": " : String) ++ e.message

end ChatTemplate
