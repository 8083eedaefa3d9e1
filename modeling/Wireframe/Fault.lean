namespace Wireframe

-- A place in an untyped plan.
inductive Path where
  -- the plan itself
  | whole
  -- an entry of the plan object
  | top (name : String)
  | child (path : Path) (index : Nat)
  | field (path : Path) (name : String)
  deriving DecidableEq, Repr

def Path.text : Path → String
  | whole => "$"
  | top name => name
  | child path index => path.text ++ ".children[" ++ toString index ++ "]"
  | field path name => path.text ++ "." ++ name

inductive SchemaProblem where
  | notJson
  | planNotObject
  | unexpectedField
  | missingField
  | notString
  | notObject
  | notArray
  | unknownModification (name : String)
  | rootNotLayout (kind : String)
  | nodeNotObject
  | layoutWithoutChildren
  | unknownLayoutProp
  | notNatural
  | other (message : String)
  deriving DecidableEq, Repr

def SchemaProblem.text : SchemaProblem → String
  | notJson => "invalid JSON"
  | planNotObject => "plan must be an object"
  | unexpectedField => "unexpected field"
  | missingField => "missing field"
  | notString => "expected a string"
  | notObject => "expected an object"
  | notArray => "expected an array"
  | unknownModification name => "expected create, edit or regenerate, got '" ++ name ++ "'"
  | rootNotLayout kind => "root must be a layout, got " ++ kind
  | nodeNotObject => "node must be an object"
  | layoutWithoutChildren => "layout requires children"
  | unknownLayoutProp => "unknown layout prop (allowed: gap, padding, columns)"
  | notNatural => "expected a non-negative integer"
  | other message => message

inductive InputProblem where
  | empty
  | tooLong (length limit : Nat)
  | other (message : String)
  deriving DecidableEq, Repr

def InputProblem.text : InputProblem → String
  | empty => "instruction is empty"
  | tooLong length limit =>
    "instruction is " ++ toString length ++ " characters, limit is " ++ toString limit
  | other message => message

-- A rule for trees that types do not ensure, or that untyped trees can break.
inductive Violation where
  | invalidId
  | emptyLayout
  | layoutInComponent
  | duplicateId
  deriving DecidableEq, Repr

def Violation.text : Violation → String
  | invalidId => "invalid id"
  | emptyLayout => "layout has no children"
  | layoutInComponent => "layout nested inside a component"
  | duplicateId => "duplicate id"

inductive GenerationProblem where
  | noTemplate
  | editWithoutPlan
  | other (message : String)
  deriving DecidableEq, Repr

def GenerationProblem.text : GenerationProblem → String
  | noTemplate => "no template matched"
  | editWithoutPlan => "edit intent has no prior plan to patch"
  | other message => message

inductive Fault where
  | injection (reason : String)
  | input (problem : InputProblem)
  | schema (path : Path) (problem : SchemaProblem)
  | forbiddenProp (key kind nodeId : String)
  | unknownKind (kind nodeId : String)
  | structural (violation : Violation) (kind nodeId : String)
  | generation (problem : GenerationProblem)
  deriving DecidableEq, Repr

namespace Fault

def quoted (text : String) : String := "'" ++ text ++ "'"

def text : Fault → String
  | injection reason => "injection detected: " ++ reason
  | input problem => "invalid input: " ++ problem.text
  | schema path problem => "schema violation at " ++ path.text ++ ": " ++ problem.text
  | forbiddenProp key kind nodeId =>
    "forbidden prop " ++ quoted key ++ " on " ++ kind ++ " " ++ quoted nodeId
  | unknownKind kind nodeId => "unknown component " ++ quoted kind ++ " at " ++ quoted nodeId
  | structural violation kind nodeId => violation.text ++ " on " ++ kind ++ " " ++ quoted nodeId
  | generation problem => "plan generation failed: " ++ problem.text

-- A name for the sort of fault that stays the same when the words change.
def code : Fault → String
  | injection _ => "INJECTION_DETECTED"
  | input _ => "INVALID_INPUT"
  | schema _ _ => "SCHEMA_VIOLATION"
  | forbiddenProp _ _ _ => "FORBIDDEN_PROP"
  | unknownKind _ _ => "UNKNOWN_COMPONENT"
  | structural _ _ _ => "STRUCTURAL_INVARIANT_VIOLATION"
  | generation _ => "PLAN_GENERATION_FAILURE"

-- The status with which a web service reports the fault.
def httpStatus : Fault → Nat
  | injection _ | input _ => 400
  | schema _ _ | forbiddenProp _ _ _ | unknownKind _ _ | structural _ _ _ => 422
  | generation _ => 500

-- Whether the fault is the service's own and not the caller's.
def isServerFault (fault : Fault) : Bool := 500 ≤ fault.httpStatus

end Fault

end Wireframe
