import Scoreboard.Source

/-!
# Diagnostics

What can be wrong with a script. A `Cause` says what happened and carries the names it
speaks of; its kind gives the stable code and title, and its details are the sentence shown
to the author of the script. A diagnostic is a cause together with the place it points at.

Codes read `ES`, a digit for the part that found the fault (0 for the reader of scripts,
1 for the generator of commands), a number and a letter for the severity.
-/

namespace Scoreboard

/-- How serious a diagnostic is. -/
inductive Severity where
  | error
  | warning
  deriving DecidableEq, Repr, Inhabited

/-- The word that opens the report of a diagnostic. -/
def Severity.title : Severity → String
  | error => "Error"
  | warning => "Warning"

/-- The catalogue of diagnostics. -/
inductive DiagnosticKind where
  | illegalCharacter
  | missingExpression
  | missingMemberDeclaration
  | missingMemberName
  | missingMemberType
  | missingMemberTypeOrValueAssignment
  | missingCase
  | missingCaseClosure
  | missingCaseSeparatorOrClosure
  | missingBlock
  | missingBlockClosure
  | missingBlockSeparatorOrClosure
  | unknownType
  | integerBoundsExceeded
  | typeMismatch
  | unknownMember
  | memberRedeclaration
  | divisionByZero
  | argumentCountMismatch
  deriving DecidableEq, Repr, Inhabited

namespace DiagnosticKind

/-- The kinds in the order of their codes. -/
def all : List DiagnosticKind :=
  [illegalCharacter, missingExpression, missingMemberDeclaration, missingMemberName,
   missingMemberType, missingMemberTypeOrValueAssignment, missingCase, missingCaseClosure,
   missingCaseSeparatorOrClosure, missingBlock, missingBlockClosure,
   missingBlockSeparatorOrClosure, unknownType, integerBoundsExceeded, typeMismatch,
   unknownMember, memberRedeclaration, divisionByZero, argumentCountMismatch]

/-- The name of a kind, for inspection. -/
def name : DiagnosticKind → String
  | illegalCharacter => "ILLEGAL_CHARACTER"
  | missingExpression => "MISSING_EXPRESSION"
  | missingMemberDeclaration => "MISSING_MEMBER_DECLARATION"
  | missingMemberName => "MISSING_MEMBER_NAME"
  | missingMemberType => "MISSING_MEMBER_TYPE"
  | missingMemberTypeOrValueAssignment => "MISSING_MEMBER_TYPE_OR_VALUE_ASSIGNMENT"
  | missingCase => "MISSING_CASE"
  | missingCaseClosure => "MISSING_CASE_CLOSURE"
  | missingCaseSeparatorOrClosure => "MISSING_CASE_SEPARATOR_OR_CLOSURE"
  | missingBlock => "MISSING_BLOCK"
  | missingBlockClosure => "MISSING_BLOCK_CLOSURE"
  | missingBlockSeparatorOrClosure => "MISSING_BLOCK_SEPARATOR_OR_CLOSURE"
  | unknownType => "UNKNOWN_TYPE"
  | integerBoundsExceeded => "INTEGER_BOUNDS_EXCEEDED"
  | typeMismatch => "TYPE_MISMATCH"
  | unknownMember => "UNKNOWN_MEMBER"
  | memberRedeclaration => "MEMBER_REDECLARATION"
  | divisionByZero => "DIVISION_BY_ZERO"
  | argumentCountMismatch => "ARGUMENT_COUNT_MISMATCH"

/-- The kind of a name. -/
def ofName? (name : String) : Option DiagnosticKind :=
  all.find? (·.name == name)

/-- The severity of a kind: so far there are no warnings. -/
def severity (_ : DiagnosticKind) : Severity := .error

/-- The stable code of a kind. -/
def code : DiagnosticKind → String
  | illegalCharacter => "ES000E"
  | missingExpression => "ES001E"
  | missingMemberDeclaration => "ES002E"
  | missingMemberName => "ES003E"
  | missingMemberType => "ES004E"
  | missingMemberTypeOrValueAssignment => "ES005E"
  | missingCase => "ES006E"
  | missingCaseClosure => "ES007E"
  | missingCaseSeparatorOrClosure => "ES008E"
  | missingBlock => "ES009E"
  | missingBlockClosure => "ES010E"
  | missingBlockSeparatorOrClosure => "ES011E"
  | unknownType => "ES100E"
  | integerBoundsExceeded => "ES101E"
  | typeMismatch => "ES102E"
  | unknownMember => "ES103E"
  | memberRedeclaration => "ES104E"
  | divisionByZero => "ES105E"
  | argumentCountMismatch => "ES106E"

/-- The title of a kind. -/
def title : DiagnosticKind → String
  | illegalCharacter => "Illegal character"
  | missingExpression => "Missing expression"
  | missingMemberDeclaration => "Missing member declaration"
  | missingMemberName => "Missing member name"
  | missingMemberType => "Missing member type"
  | missingMemberTypeOrValueAssignment => "Missing member type or value assignment"
  | missingCase => "Missing case"
  | missingCaseClosure => "Missing case closure"
  | missingCaseSeparatorOrClosure => "Missing case separator or closure"
  | missingBlock => "Missing block"
  | missingBlockClosure => "Missing block closure"
  | missingBlockSeparatorOrClosure => "Missing block separator or closure"
  | unknownType => "Unknown type"
  | integerBoundsExceeded => "Integer bounds exceeded"
  | typeMismatch => "Type mismatch"
  | unknownMember => "Unknown member"
  | memberRedeclaration => "Member redeclaration"
  | divisionByZero => "Division by zero"
  | argumentCountMismatch => "Argument count mismatch"

end DiagnosticKind

/-! ## Wording

The sentences of the details, for any words put into them. -/

namespace Wording

/-- A character that starts no token. -/
def illegalCharacter (character : String) : String :=
  s!"Character '{character}' is not allowed"

/-- No expression where one has to stand. -/
def missingExpression : String := "Expected any expression"

/-- An expression of the wrong sort. -/
def missingSpecificExpression (sort : String) : String :=
  s!"Expected {sort} expression"

/-- A member without the colon of its type. -/
def missingMemberDeclaration (name role : String) : String :=
  s!"Expected ':' to declare {role} '{name}'"

/-- A member with neither type nor value. -/
def missingMemberTypeOrValueAssignment (role : String) : String :=
  s!"Expected ':' to declare {role} type or '=' to assign a value"

/-- A colon without a type. -/
def missingMemberType (role : String) : String :=
  s!"Expected {role} type"

/-- A declaration without a name. -/
def missingMemberName (role : String) : String :=
  s!"Expected {role} name"

/-- A list that is not opened. -/
def missingCase (contents : String) : String :=
  s!"Expected '(' to open {contents}"

/-- A parenthesis that is not closed. -/
def missingCaseClosure : String := "Expected ')'"

/-- A list that neither goes on nor ends. -/
def missingCaseSeparatorOrClosure : String := "Expected ',' or ')'"

/-- A body that is not opened. -/
def missingBlock : String := "Expected '\x7b' to open a block"

/-- A body that the text ends in. -/
def missingBlockClosure : String := "Expected '\x7d' to close the block"

/-- A statement of a body that is followed by something else on its line. -/
def missingBlockSeparatorOrClosure : String := "Expected a new line or '\x7d'"

/-- A statement of a program that is followed by something else on its line. -/
def missingStatementSeparator : String := "Expected a new line"

/-- A type that does not exist. -/
def unknownType (name : String) : String :=
  s!"Type \"{name}\" does not exist in this scope"

/-- A literal beyond the range of scores. -/
def integerBoundsExceeded (limit : Int) : String :=
  s!"Provided integer exceeds the {limit} byte limit"

/-- A value of the wrong type. -/
def typeMismatch (expected got : String) : String :=
  s!"Expected value of type {expected}, got {got}"

/-- A name that is not declared. -/
def unknownMember (role name : String) : String :=
  s!"{role} '{name}' is not declared in this scope"

/-- A name that is declared twice. -/
def memberRedeclaration (role name : String) : String :=
  s!"{role} '{name}' had already been declared"

/-- A constant divided by zero. -/
def divisionByZero : String := "Cannot divide by zero"

/-- A call with the wrong number of arguments. -/
def argumentCountMismatch (name : String) (expected got : Int) : String :=
  s!"Function '{name}' expects {expected} argument(s), got {got}"

end Wording

/-! ## Causes -/

/-- The roles a name or a type can play in a script. -/
inductive Role where
  | variable
  | function
  | parameter
  | result
  deriving DecidableEq, Repr, Inhabited

namespace Role

/-- The word for a role inside a sentence. -/
def word : Role → String
  | .variable => "variable"
  | function => "function"
  | parameter => "parameter"
  | result => "return"

/-- The word for a role at the start of a sentence. -/
def title : Role → String
  | .variable => "Variable"
  | function => "Function"
  | parameter => "Parameter"
  | result => "Return"

end Role

/-- The types of values that diagnostics speak of. -/
inductive ValueType where
  | int
  | undefined
  | function
  | string
  deriving DecidableEq, Repr, Inhabited

/-- The name of a type. -/
def ValueType.name : ValueType → String
  | int => "int"
  | undefined => "undefined"
  | function => "function"
  | string => "string"

/-- What is wrong with a script. The last form is for a fault that a caller words on its
own. -/
inductive Cause where
  | illegalCharacter (lexeme : String)
  | missingExpression
  | missingString
  | missingParameterType (name : String)
  | missingName (role : Role)
  | missingType (role : Role)
  | missingTypeOrValue
  | missingParameters
  | unclosedParenthesis
  | missingSeparator
  | missingBlock
  | unclosedBlock
  | missingLineInBlock
  | missingLine
  | unknownType (name : String)
  | integerBounds
  | typeMismatch (expected got : ValueType)
  | unknownMember (role : Role) (name : String)
  | redeclared (role : Role) (name : String)
  | divisionByZero
  | argumentCount (name : String) (expected got : Nat)
  | worded (kind : DiagnosticKind) (details : String)
  deriving DecidableEq, Repr, Inhabited

namespace Cause

/-- The kind of a cause. -/
def kind : Cause → DiagnosticKind
  | illegalCharacter _ => .illegalCharacter
  | missingExpression => .missingExpression
  | missingString => .missingExpression
  | missingParameterType _ => .missingMemberDeclaration
  | missingName _ => .missingMemberName
  | missingType _ => .missingMemberType
  | missingTypeOrValue => .missingMemberTypeOrValueAssignment
  | missingParameters => .missingCase
  | unclosedParenthesis => .missingCaseClosure
  | missingSeparator => .missingCaseSeparatorOrClosure
  | missingBlock => .missingBlock
  | unclosedBlock => .missingBlockClosure
  | missingLineInBlock => .missingBlockSeparatorOrClosure
  | missingLine => .missingBlockSeparatorOrClosure
  | unknownType _ => .unknownType
  | integerBounds => .integerBoundsExceeded
  | typeMismatch _ _ => .typeMismatch
  | unknownMember _ _ => .unknownMember
  | redeclared _ _ => .memberRedeclaration
  | divisionByZero => .divisionByZero
  | argumentCount _ _ _ => .argumentCountMismatch
  | worded kind _ => kind

/-- The sentence that tells a cause. -/
def details : Cause → String
  | illegalCharacter lexeme => Wording.illegalCharacter lexeme
  | missingExpression => Wording.missingExpression
  | missingString => Wording.missingSpecificExpression "string"
  | missingParameterType name => Wording.missingMemberDeclaration name Role.parameter.word
  | missingName role => Wording.missingMemberName role.word
  | missingType role => Wording.missingMemberType role.word
  | missingTypeOrValue => Wording.missingMemberTypeOrValueAssignment Role.variable.word
  | missingParameters => Wording.missingCase "parameters"
  | unclosedParenthesis => Wording.missingCaseClosure
  | missingSeparator => Wording.missingCaseSeparatorOrClosure
  | missingBlock => Wording.missingBlock
  | unclosedBlock => Wording.missingBlockClosure
  | missingLineInBlock => Wording.missingBlockSeparatorOrClosure
  | missingLine => Wording.missingStatementSeparator
  | unknownType name => Wording.unknownType name
  | integerBounds => Wording.integerBoundsExceeded 32
  | typeMismatch expected got => Wording.typeMismatch expected.name got.name
  | unknownMember role name => Wording.unknownMember role.title name
  | redeclared role name => Wording.memberRedeclaration role.title name
  | divisionByZero => Wording.divisionByZero
  | argumentCount name expected got => Wording.argumentCountMismatch name expected got
  | worded _ details => details

end Cause

/-- A cause and the place it points at. -/
structure Diagnostic (α : Type) where
  cause : Cause
  place : α
  deriving DecidableEq, Repr, Inhabited

namespace Diagnostic

variable {α β : Type}

/-- The kind of a diagnostic. -/
def kind (d : Diagnostic α) : DiagnosticKind := d.cause.kind

/-- The sentence that tells a diagnostic. -/
def details (d : Diagnostic α) : String := d.cause.details

/-- The same cause at another place. -/
def mapPlace (f : α → β) (d : Diagnostic α) : Diagnostic β := ⟨d.cause, f d.place⟩

/-- The first line of the report. -/
def header (d : Diagnostic α) : String :=
  s!"{d.kind.severity.title} {d.kind.code}: {d.kind.title}"

/-- The diagnostic at the region of its span, where it is shown. -/
def shown (d : Diagnostic Span) : Diagnostic Region := d.mapPlace Span.region

/-- The diagnostic on one line. -/
def message (d : Diagnostic Region) : Text :=
  d.place.location ++ ": " ++ d.details

end Diagnostic

end Scoreboard
