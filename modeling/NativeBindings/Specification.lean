import NativeBindings.Diagnostic
import NativeBindings.Json.Listings
import NativeBindings.Toml.Listings
import NativeBindings.TypeExpr.Parse

set_option autoImplicit false
set_option relaxedAutoImplicit false

/-!
Decoding a specification into declarations. Every fault goes into the sink; declarations come out
only if the sink holds no error at all.
-/

namespace NativeBindings

inductive Format where
  | toml
  | json
  deriving DecidableEq

namespace Specification

/-- A specification that could not be decoded, with the number of errors in the sink. -/
structure Failure where
  file : String
  errors : Nat

def Failure.message (f : Failure) : String :=
  "failed to decode `" ++ f.file ++ "`: " ++ f.errors.repr ++ " error(s)"

/-- The diagnostic of a JSON text that does not decode. It marks the byte before the place where
reading stopped. -/
def jsonFault (source file : String) (id : Nat) (f : Json.Fault) : Diagnostic :=
  let place := f.place source
  let span := (Text.offsetOf? (Text.bytes source) place.line place.column).map fun offset =>
    Span.ofBounds id offset (offset + 1)
  ⟨.error, "DE0002", file, span, f.message source⟩

def tomlFault (source file : String) (id : Nat) (f : Toml.Fault) : Diagnostic :=
  let total := Text.byteCount source.toList
  let span := Span.ofBounds id (Toml.offsetIn total f.extent.start)
    (Toml.offsetIn total f.extent.stop)
  ⟨.error, "DE0001", file, some span, f.cause.message⟩

def listings (format : Format) (source file : String) (id : Nat) :
    Except Diagnostic (List Listing) :=
  match format with
  | .toml => (Toml.listings source).mapError (tomlFault source file id)
  | .json => (Json.listings source).mapError (jsonFault source file id)

def typeFault (file owner type place : String) (reason : TypeExpr.Rejection) : Diagnostic :=
  ⟨.error, "DE0003", file, none,
    "`" ++ owner ++ "`: cannot parse type `" ++ type ++ "` of " ++ place ++ ": " ++
      reason.message type⟩

/-- The values that could be made, and the diagnostics of those that could not. -/
def partitionResults {α : Type} : List (Except Diagnostic α) → List α × List Diagnostic
  | [] => ([], [])
  | .ok x :: rest => (x :: (partitionResults rest).1, (partitionResults rest).2)
  | .error d :: rest => ((partitionResults rest).1, d :: (partitionResults rest).2)

def resolveArgument (file owner : String) (a : ListedArgument) : Except Diagnostic Argument :=
  match TypeExpr.parse a.type with
  | .ok t => .ok ⟨a.name, t, a.defaultValue⟩
  | .error reason =>
    .error (typeFault file owner a.type ("argument `" ++ a.name ++ "`") reason)

def resolveReturn (file owner : String) (r : ListedReturn) : Except Diagnostic TypeExpr :=
  (TypeExpr.parse r.type).mapError (typeFault file owner r.type "return value")

def resolve (file : String) (l : Listing) : Declaration × List Diagnostic :=
  let (arguments, inArguments) :=
    partitionResults (l.arguments.map (resolveArgument file l.name))
  let (returns, inReturns) := partitionResults (l.returns.map (resolveReturn file l.name))
  (⟨l.name, l.overloadName, arguments, returns, l.mode, l.methodOf, l.isFactoryMethod⟩,
    inArguments ++ inReturns)

def misplacedDefault (file : String) (d : Declaration) : Diagnostic :=
  ⟨.warning, "DW0001", file, none,
    "`" ++ d.qualifiedName ++ "`: default value before a required argument is ignored"⟩

def failWith (file : String) (sink : Sink) : Except Failure (List Declaration) × Sink :=
  (.error ⟨file, Sink.errorCount sink⟩, sink)

def resolveAll (file : String) (found : List Listing) (sink : Sink) :
    Except Failure (List Declaration) × Sink :=
  let resolved := found.map (resolve file)
  let sink := sink ++ (resolved.map Prod.snd).flatten
  if Sink.hasErrors sink then failWith file sink
  else
    let declarations := resolved.map Prod.fst
    (.ok declarations, sink ++ (declarations.filter Declaration.hasMisplacedDefault).map
      (misplacedDefault file))

def decode (format : Format) (source file : String) (id : Nat) (sink : Sink) :
    Except Failure (List Declaration) × Sink :=
  match listings format source file id with
  | .error d => failWith file (sink ++ [d])
  | .ok found => resolveAll file found sink

end Specification

end NativeBindings
