import JavaLex.Config
import JavaLex.Diagnostic
import JavaLex.Statement
import JavaLex.Token.Basic

namespace JavaLex

structure Classifier where
  statement : StatementState := {}
  /-- Whether the last significant token was `<` or `,`, so that a type argument may follow. -/
  typeArgument : Bool := false
  diagnostics : Array Diagnostic := #[]

structure Verdict where
  kind : Kind
  flags : Flags := {}
  /-- None for trivia, which statements do not notice. -/
  event : Option StatementEvent := none
  problems : List Diagnostic := []

structure Classified where
  kind : Kind
  flags : Flags
  state : Classifier

/-- Adds problems one by one, as many as the limit lets in. -/
def Config.keep (config : Config) (stored : Array Diagnostic) (problems : List Diagnostic) :
    Array Diagnostic :=
  problems.foldl (fun kept d => if config.hasRoom kept.size then kept.push d else kept) stored

/-- A token with a problem is flagged whether or not the limit lets the problem in. -/
def Verdict.settle (v : Verdict) (config : Config) (state : Classifier) (typeArgument : Bool) :
    Except Fault Classified := do
  let statement ← match v.event with
    | none => pure state.statement
    | some event => state.statement.after event
  pure {
    kind := v.kind
    flags := { v.flags with hasError := !v.problems.isEmpty }
    state := ⟨statement, typeArgument, config.keep state.diagnostics v.problems⟩ }

end JavaLex
