import Stencil.Failure
import Stencil.Text.Case
import Stencil.Text.Words
import Stencil.Value.Written

/-! Options of an engine. -/
namespace Stencil

/-- Flags hold any value and count as set when it is true; limits are positive. -/
structure Options where
  autoEscape : Value
  strictMode : Value
  cacheTemplates : Value
  maxCacheSize : Nat
  preserveWhitespace : Value
  maxDepth : Nat
  strictArithmetic : Value
  maxLoopIterations : Nat

namespace Options

def standard : Options :=
  { autoEscape := .bool true
    strictMode := .bool false
    cacheTemplates := .bool true
    maxCacheSize := 100
    preserveWhitespace := .bool false
    maxDepth := 100
    strictArithmetic := .bool false
    maxLoopIterations := 10000 }

/-- The options by name. -/
def toDict (o : Options) : Dict Value := [
  ("auto_escape", o.autoEscape), ("strict_mode", o.strictMode),
  ("cache_templates", o.cacheTemplates), ("max_cache_size", .ofNat o.maxCacheSize),
  ("preserve_whitespace", o.preserveWhitespace), ("max_depth", .ofNat o.maxDepth),
  ("strict_arithmetic", o.strictArithmetic), ("max_loop_iterations", .ofNat o.maxLoopIterations)]

def names : List String := Dict.keys standard.toDict

def refuse {α : Type} (trouble : OptionTrouble) : Except Failure α :=
  .error (.ofCause (.options trouble))

/-- A limit must be a positive integer. -/
def positive (dict : Dict Value) (name : String) : Except Failure Nat := do
  let value := (Dict.get? dict name).getD .undefined
  match value with
  | .int (.ofNat (n + 1)) => return n + 1
  | _ => refuse (.notPositive name (← liftFault value.printed))

/-- Names that are no options, in order of code points. -/
def unknown (dict : Dict Value) : List String :=
  ((Dict.keys dict).filter (!names.contains ·)).mergeSort fun a b => !decide (b.toList < a.toList)

/-- Options by name; those that are not given have their standard values. -/
def ofDict (given : Dict Value) : Except Failure Options := do
  let strange := unknown given
  unless strange.isEmpty do refuse (.unknown strange)
  let dict := Dict.update standard.toDict given
  let maxCacheSize ← positive dict "max_cache_size"
  let maxDepth ← positive dict "max_depth"
  let maxLoopIterations ← positive dict "max_loop_iterations"
  let flag (name : String) : Value := (Dict.get? dict name).getD .undefined
  return { autoEscape := flag "auto_escape", strictMode := flag "strict_mode"
           cacheTemplates := flag "cache_templates", maxCacheSize
           preserveWhitespace := flag "preserve_whitespace", maxDepth
           strictArithmetic := flag "strict_arithmetic", maxLoopIterations }

def replace (options : Options) (changes : Dict Value) : Except Failure Options :=
  ofDict (Dict.update options.toDict changes)

/-- Settings that switch the store of templates off. -/
def offWords : List String := ["0", "false", "no", "off", ""]

/-- The options under a setting of the surroundings for the store of templates. -/
def withCacheSetting (options : Options) (setting : Option String) : Options :=
  match setting with
  | none => options
  | some word =>
    let plain := String.ofList (Text.lower (Text.trim word.toList))
    { options with cacheTemplates := .bool (!offWords.contains plain) }

/-- Words that say of a flag that it is off. -/
def denials : List String := ["0", "off", "f", "false", "n", "no"]

/-- Whether a flag is read as on: a text by its word, anything else by its truth. -/
def isOn (flag : Value) : Bool :=
  flag.truthy && !flag.asText?.any fun word => denials.contains (word.map Char.toLower)

end Options
end Stencil
