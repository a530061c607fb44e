import Curly.CommandLine
import Curly.Proofs.Diagnostics
import Mathlib.Data.List.Basic

/-! Runs of the command line beside compilation. A run goes through the stages of compilation once
more, with exits and records between them. It accepts what is compiled, shows what is wrong with the
rest in the same order, and asks the system to write only where there is code. -/
namespace Curly

/-- Records of stages, and of nothing that went wrong. -/
def Calm (records : List Record) : Prop :=
  ∀ r ∈ records, r.level = .info

theorem calm_nil : Calm [] :=
  nofun

theorem Calm.cons {r : Record} {records : List Record} (stage : r.level = .info)
    (calm : Calm records) : Calm (r :: records) :=
  List.forall_mem_cons.mpr ⟨stage, calm⟩

theorem Calm.finished {records : List Record} (calm : Calm records) :
    Calm (records ++ [.finished]) :=
  List.forall_mem_append.mpr ⟨calm, calm_nil.cons rfl⟩

/-- What a run on a text has to come to that is asked for neither tokens nor an outline. -/
def decided (o : Options) (source : String) : Except CompileError Outcome.Ending := do
  let p ← readProgram source
  checkScopes p
  if o.scopeOnly then return .listed ""
  checkTypes p
  return .coded (Lowering.program p)

theorem decided_of_unread {o : Options} {source : String} {e : CompileError}
    (unread : readProgram source = .error e) : decided o source = .error e := by
  rw [decided, unread]
  rfl

/-- An outcome that records some stages. If it fails, it shows all that is wrong and ends there. -/
inductive Outcome.Agrees (source file : String) :
    Except CompileError Outcome.Ending → Outcome → Prop
  | passed {records : List Record} {ending : Outcome.Ending} (calm : Calm records) :
      Agrees source file (.ok ending) ⟨records.map .record, ending⟩
  | failed {records : List Record} {diagnostics : List String} {e : CompileError}
      (calm : Calm records)
      (shown : List.Forall₂ (Finding.Shown source file) e.findings diagnostics) :
      Agrees source file (.error e)
        ⟨records.map .record ++ diagnostics.map .diagnostic, .failed⟩

namespace Outcome.Agrees

variable {o : Options} {source file : String}

theorem ended (ending : Outcome.Ending) : Agrees source file (.ok ending) ⟨[], ending⟩ :=
  .passed calm_nil

theorem failing {diagnostics : List String} {e : CompileError}
    (shown : List.Forall₂ (Finding.Shown source file) e.findings diagnostics) :
    Agrees source file (.error e) (.failing diagnostics) :=
  .failed calm_nil shown

theorem after {result : Except CompileError Outcome.Ending} {outcome : Outcome} {r : Record}
    (stage : r.level = .info) (agrees : Agrees source file result outcome) :
    Agrees source file result (outcome.after r) := by
  cases agrees with
  | passed calm => exact .passed (calm.cons stage)
  | failed calm shown => exact .failed (calm.cons stage) shown

/-- The stages behind the parser. -/
theorem runOnProgram {p : Program} (parsed : readProgram source = .ok p) :
    Agrees source file (decided o source) (runOnProgram o file source p) := by
  unfold decided Curly.runOnProgram
  simp only [parsed, bind, Except.bind, checkScopes, checkTypes]
  refine .after rfl ?_
  cases names : (analyze p).errors with
  | cons e es => exact .failing (shown_scope source file (e :: es))
  | nil =>
    cases only : o.scopeOnly with
    | true => exact .ended (.listed "")
    | false =>
      refine .after rfl ?_
      cases types : typeCheck p with
      | cons e es => exact .failing (shown_typing source file (e :: es))
      | nil => exact .after rfl (.ended (.coded (Lowering.program p)))

theorem runOn (plain : o.dumpTokens = false) (bare : o.dumpTree = false) :
    Agrees source file (decided o source) (runOn o file source) := by
  unfold Curly.runOn
  cases read : tokenize source with
  | error e =>
    have unread : readProgram source = .error (.syntactic e) := by
      simp [readProgram, Parse.ofText, read, bind, Except.bind, Except.mapError]
    rw [decided_of_unread unread]
    exact .failing (shown_report source file e)
  | ok tokens =>
    refine .after rfl ?_
    rw [plain]
    cases parsed : Parse.ofTokens tokens with
    | error e =>
      have unread : readProgram source = .error (.syntactic e) := by
        simp [readProgram, Parse.ofText, read, parsed, bind, Except.bind, Except.mapError]
      rw [decided_of_unread unread]
      exact .failing (shown_report source file e)
    | ok p =>
      refine .after rfl ?_
      rw [bare]
      refine runOnProgram ?_
      simp [readProgram, Parse.ofText, read, parsed, bind, Except.bind, Except.mapError]

end Outcome.Agrees

section

variable {o : Options} {source : String}

end

namespace System

variable {World : Type}

/-- What is said of an error: behind the records, a diagnostic for each of its findings, in their
order. -/
def Reports (s : System World) (o : Options) (source : String) (e : CompileError) (err : String) :
    Prop :=
  ∃ records diagnostics, Calm records ∧
    List.Forall₂ (Finding.Shown source (fileName o.input)) e.findings diagnostics ∧
    err = String.join (records.map (s.logged o)) ++ String.join diagnostics

/-- Nothing is said but the records of stages. -/
def Quiet (s : System World) (o : Options) (err : String) : Prop :=
  ∃ records, Calm records ∧ err = String.join (records.map (s.logged o))

/-- Nothing is said but the records of stages, and then that a file could not be written. -/
def Unwritten (s : System World) (o : Options) (path reason err : String) : Prop :=
  ∃ records, Calm records ∧
    err = String.join (records.map (s.logged o)) ++ s.logged o (.unwritable path reason)

/-- What a run on a source that could be read replies, and the world behind it, as compilation has
it. The options ask for neither tokens nor an outline. If the output file can be written, a run
fails only at an error of compilation, and leaves the world as it was. -/
structure Faithful (s : System World) (o : Options) (w : World) (source : String) (reply : Reply)
    (after : World) : Prop where
  accepts : o.scopeOnly = false → (reply.exitCode = 0 ↔ ∃ code, compile source = .ok code ∧
    ∀ path ∈ o.output, (s.write w path (listing code)).1 = .ok ())
  prints : o.scopeOnly = false → o.output = none → ∀ code, compile source = .ok code →
    reply.out = listing code ∧ after = w
  writes : o.scopeOnly = false → ∀ path ∈ o.output, ∀ code, compile source = .ok code →
    reply.out = "" ∧ after = (s.write w path (listing code)).2
  scopes : o.scopeOnly = true →
    (reply.exitCode = 0 ↔ ∃ p, readProgram source = .ok p ∧ (analyze p).errors = []) ∧
      reply.out = "" ∧ after = w
  quiet : reply.exitCode = 0 → s.Quiet o reply.err
  fails : reply.exitCode ≠ 0 → reply.exitCode = 1 ∧ reply.out = "" ∧
    ((∃ e, compile source = .error e ∧ after = w ∧ s.Reports o source e reply.err) ∨
      ∃ path ∈ o.output, ∃ code reason, compile source = .ok code ∧
        s.write w path (listing code) = (.error reason, after) ∧
        s.Unwritten o path reason reply.err)

namespace Faithful

variable {s : System World} {o : Options} {w : World} {source : String}

section

variable {code : List Instruction} {records : List Record} {path : String} {after : World}
  (whole : o.scopeOnly = false) (asked : o.output = some path)
  (compiled : compile source = .ok code) (calm : Calm records)

include whole asked compiled calm

end

end Faithful

end System

/-- A folder that keeps every text it is given, with a log that begins a line with the level. -/
def folder : System (List (String × String)) where
  read files path := (files.lookup path).elim (.error "No such file or directory") .ok
  write files path text := (.ok (), (path, text) :: files.filter (·.1 ≠ path))
  duration _ := "1ms"
  log most level message :=
    match most, level with
    | _, .error => "[ERROR] " ++ message ++ "\n"
    | .debug, .info => "[INFO] " ++ message ++ "\n"
    | _, _ => ""

end Curly
