import Curly.Compile
import Curly.Diagnostic.Excerpt
import Curly.Diagnostic.Log
import Curly.Outline

/-! The command line: what is asked for, what a run says, and a run on a system with files, a clock
and a log. -/
namespace Curly

structure Options where
  input : String
  output : Option String
  dumpTokens : Bool
  dumpTree : Bool
  scopeOnly : Bool
  verbose : Bool
deriving DecidableEq, Repr

/-- The records that are asked for are those up to a level. -/
def Options.level (o : Options) : Record.Level :=
  if o.verbose then .debug else .warn

def pathParts (path : String) : List String :=
  (path.splitOn "/").filter fun part => part ≠ "" && part ≠ "."

/-- The name that a file has in complaints: the last part of its path. -/
def fileName (path : String) : String :=
  match (pathParts path).getLast? with
  | none => path
  | some part => if part = ".." then path else part

/-- What a run says beside its output. -/
inductive Remark where
  | record (r : Record)
  | diagnostic (text : String)
deriving DecidableEq, Repr

/-- What a run on a text comes to: a complaint, a listing that was asked for, or code. -/
inductive Outcome.Ending where
  | failed
  | listed (text : String)
  | coded (code : List Instruction)
deriving DecidableEq, Repr

structure Outcome where
  remarks : List Remark
  ending : Outcome.Ending
deriving DecidableEq, Repr

namespace Outcome

def failing (diagnostics : List String) : Outcome :=
  ⟨diagnostics.map .diagnostic, .failed⟩

/-- The outcome of a run whose other stages come behind one that is recorded. -/
def after (r : Record) (outcome : Outcome) : Outcome :=
  { outcome with remarks := .record r :: outcome.remarks }

end Outcome

/-- The stages behind the parser. Asked for scopes only, a run stops before the types. -/
def runOnProgram (o : Options) (file source : String) (p : Program) : Outcome :=
  let analysis := analyze p
  .after (.analyzed analysis.table.frames.size) <|
    if analysis.errors ≠ [] then
      .failing (analysis.errors.map fun e => complaint "Scope" e.message e.position source file)
    else if o.scopeOnly then ⟨[], .listed ""⟩
    else
      let errors := typeCheck p
      .after .typed <|
        if errors ≠ [] then
          .failing (errors.map fun e => complaint "Type" e.message e.position source file)
        else
          let code := Lowering.program p
          .after (.generated code.length) ⟨[], .coded code⟩

/-- A run on a text. Asked for a listing of tokens it stops before parsing, and asked for an outline
it stops behind it. -/
def runOn (o : Options) (file source : String) : Outcome :=
  match tokenize source with
  | .error e => .failing [e.report source file]
  | .ok tokens =>
    .after .tokenized <|
      if o.dumpTokens then ⟨[], .listed (String.join (tokens.map fun t => t.line ++ "\n"))⟩
      else
        match Parse.ofTokens tokens with
        | .error e => .failing [e.report source file]
        | .ok p =>
          .after .parsed <|
            if o.dumpTree then ⟨[], .listed (p.outline.text ++ "\n")⟩
            else runOnProgram o file source p

/-- The system around a run. A world is a state of its files. A file is created or emptied before a
text is written to it, and the writing may break off, so a write leaves another world even where it
fails. Failures come with a reason. -/
structure System (World : Type) where
  read : World → (path : String) → Except String String
  write : World → (path text : String) → Except String Unit × World
  /-- The duration that a record shows. -/
  duration : Record → String
  /-- What the log shows of a message, if anything, when the records up to `most` are asked for. -/
  log : (most : Record.Level) → Record.Level → (message : String) → String

structure Reply where
  exitCode : Nat
  out : String
  err : String
deriving DecidableEq, Repr

namespace System

variable {World : Type} (s : System World) (o : Options)

def logged (r : Record) : String :=
  s.log o.level r.level (r.message (s.duration r))

def shown : Remark → String
  | .record r => s.logged o r
  | .diagnostic text => text

def succeeding (out : String) (remarks : List Remark) : Reply :=
  ⟨0, out, String.join (remarks.map (s.shown o))⟩

def failing (remarks : List Remark) : Reply :=
  ⟨1, "", String.join (remarks.map (s.shown o))⟩

/-- The end of a run. Code is for the output file, or else for the standard output. -/
def finish (w : World) (outcome : Outcome) : Reply × World :=
  match outcome.ending with
  | .failed => (s.failing o outcome.remarks, w)
  | .listed text => (s.succeeding o text outcome.remarks, w)
  | .coded code =>
    match o.output with
    | none => (s.succeeding o (listing code) (outcome.remarks ++ [.record .finished]), w)
    | some path =>
      match s.write w path (listing code) with
      | (.ok _, after) => (s.succeeding o "" (outcome.remarks ++ [.record .finished]), after)
      | (.error reason, after) =>
        (s.failing o (outcome.remarks ++ [.record (.unwritable path reason)]), after)

def run (w : World) : Reply × World :=
  match s.read w o.input with
  | .error reason => (s.failing o [.record (.unreadable o.input reason)], w)
  | .ok source => s.finish o w (runOn o (fileName o.input) source)

end System
end Curly
