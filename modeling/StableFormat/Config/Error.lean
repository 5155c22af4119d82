import StableFormat.Config.Basic
import StableFormat.Glob.Basic
import StableFormat.Pattern.Error

/-!
# Errors of configurations

Why a configuration that could be read cannot be used.
-/

namespace StableFormat

/-- A configuration that cannot be used. -/
inductive ConfigError where
  | belowMinimum (key : String) (minimum value : Nat)
  | duplicateFormat (format : String)
  | emptyFormat (format : String)
  | invalidGlob (format pattern : String) (error : Glob.Error)
  | invalidPattern (format step : String) (error : Pattern.PatternError)
  | unknownFormat (format : String)
  | unsupportedVersion (version : Nat)
  deriving DecidableEq, Repr, Inhabited

/-- The text of an error. -/
def ConfigError.message : ConfigError → String
  | belowMinimum key minimum value =>
    key ++ " must be at least " ++ toString minimum ++ " (got " ++ toString value ++ ")"
  | duplicateFormat format => "duplicate format name '" ++ format ++ "'"
  | emptyFormat format => "format '" ++ format ++ "' has no steps"
  | invalidGlob format pattern error =>
    "format '" ++ format ++ "': invalid glob '" ++ pattern ++ "': " ++ error.message
  | invalidPattern format step error =>
    "format '" ++ format ++ "': step '" ++ step ++ "' has an invalid pattern: " ++ error.message
  | unknownFormat format => "unknown format '" ++ format ++ "'"
  | unsupportedVersion version =>
    "unsupported config version " ++ toString version ++ " (expected " ++
      toString Config.knownVersion ++ ")"

end StableFormat
