import Mathlib.Tactic.Common

/-!
# Exceptions

The exceptions that the modelled code throws itself, and those that its environment may raise at
the operations it performs.
-/

namespace ElevateGate

/-- The .NET exceptions that the agent throws or meets. -/
inductive ClrException
  | argumentNull (paramName : String)
  | argument (paramName : String)
  | argumentOutOfRange (paramName message : String)
  | invalidOperation (message : String)
  | io (message : String)
  | sqlite (message : String)
  | httpRequest (message : String)
  | win32 (message : String)
  | operationCanceled (message : String)
  deriving DecidableEq

/-- `Exception.Message`. -/
def ClrException.message : ClrException → String
  | .argumentNull paramName => s!"Value cannot be null. (Parameter '{paramName}')"
  | .argument paramName => s!"The value cannot be an empty string. (Parameter '{paramName}')"
  | .argumentOutOfRange paramName message => s!"{message} (Parameter '{paramName}')"
  | .invalidOperation message => message
  | .io message => message
  | .sqlite message => message
  | .httpRequest message => message
  | .win32 message => message
  | .operationCanceled message => message

/-- The Python exceptions that the backend raises or meets. -/
inductive PyError
  | httpException (statusCode : Nat) (detail : String)
  | valueError (message : String)
  | overflowError
  | attributeError
  | multipleResultsFound
  | integrityError
  | operationalError
  | noResultFound
  | dbapiError
  | requestValidationError
  | rateLimitExceeded
  deriving DecidableEq

end ElevateGate
