import Curly.Proofs.Execution.Meaning

/-! Structured execution of statements, told without labels or jumps. A body runs in a scope of its
own; a loop is told from its test on, and a switch by trying its arms in turn. -/
namespace Curly

/-- How a statement ends: at its end, by a break, or by a return. -/
inductive Ending (Value : Type) where
  | done
  | left
  | gaveBack (value : Option Value)
deriving DecidableEq

/-- A break has its effect at the end of the loop or switch around it. -/
def Ending.outside {Value : Type} : Ending Value → Ending Value
  | .left => .done
  | ending => ending

/-- What can be executed: `loop` is a loop that has come to its test, and `arms` the rest of a
switch on a subject. -/
inductive Piece (Value : Type) where
  | stmt (s : Stmt)
  | stmts (body : List Stmt)
  | block (body : Block)
  | loop (condition update : Option Expr) (body : Block)
  | arms (subject : Value) (cases : List Case) (fallback : Option Block)

section

variable {Value World : Type} (m : Meaning Value World)

inductive Exec : Piece Value → Situation Value World → Ending Value → Situation Value World → Prop
  | empty (s) : Exec (.stmts []) s .done s
  | next (first others s middle after ending)
      (head : Exec (.stmt first) s .done middle)
      (tail : Exec (.stmts others) middle ending after) :
      Exec (.stmts (first :: others)) s ending after
  | stop (first others s after ending)
      (head : Exec (.stmt first) s ending after) (early : ending ≠ .done) :
      Exec (.stmts (first :: others)) s ending after
  | scope (body span s after ending) (inside : Exec (.stmts body) s ending after) :
      Exec (.block ⟨body, span⟩) s ending (s.leave after)
  | declare (ty name span s) :
      Exec (.stmt (.variable ty name none span)) s .done (s.declare name (m.whole 0))
  | define (ty name e span s value after) (evaluated : m.eval e s = some (value, after)) :
      Exec (.stmt (.variable ty name (some e) span)) s .done (after.declare name value)
  | evaluate (e span s value after) (evaluated : m.eval e s = some (value, after)) :
      Exec (.stmt (.evaluate e span)) s .done after
  | print (args span s values middle value world)
      (evaluated : m.evals args s = some (values, middle))
      (called : m.call "print" values middle.world = some (value, world)) :
      Exec (.stmt (.print args span)) s .done { middle with world }
  | block (body s after ending) (inside : Exec (.block body) s ending after) :
      Exec (.stmt (.block body)) s ending after
  | yes (e yes no span s value middle after ending)
      (evaluated : m.eval e s = some (value, middle)) (holds : m.truth value = true)
      (inside : Exec (.block yes) middle ending after) :
      Exec (.stmt (.branch e yes no span)) s ending after
  | no (e yes no span s value middle after ending)
      (evaluated : m.eval e s = some (value, middle)) (fails : m.truth value = false)
      (inside : Exec (.block no) middle ending after) :
      Exec (.stmt (.branch e yes (some no) span)) s ending after
  | skip (e yes span s value after)
      (evaluated : m.eval e s = some (value, after)) (fails : m.truth value = false) :
      Exec (.stmt (.branch e yes none span)) s .done after
  | whileLoop (e body span s after ending)
      (looped : Exec (.loop (some e) none body) s ending after) :
      Exec (.stmt (.whileLoop e body span)) s ending after
  | doLoop (body e span s middle after ending)
      (first : Exec (.block body) s .done middle)
      (looped : Exec (.loop (some e) none body) middle ending after) :
      Exec (.stmt (.doLoop body e span)) s ending after
  | doOnce (body e span s after ending)
      (first : Exec (.block body) s ending after) (early : ending ≠ .done) :
      Exec (.stmt (.doLoop body e span)) s ending.outside after
  | forLoop (initial e update body span s middle after ending)
      (start : Exec (.stmts initial.toList) s .done middle)
      (looped : Exec (.loop e update body) middle ending after) :
      Exec (.stmt (.forLoop initial e update body span)) s ending (s.leave after)
  | forNever (initial e update body span s after ending)
      (start : Exec (.stmts initial.toList) s ending after) (early : ending ≠ .done) :
      Exec (.stmt (.forLoop initial e update body span)) s ending (s.leave after)
  | finish (condition update body s after) (tested : m.test condition s = some (false, after)) :
      Exec (.loop condition update body) s .done after
  | quit (condition update body s middle after ending)
      (tested : m.test condition s = some (true, middle))
      (inside : Exec (.block body) middle ending after) (early : ending ≠ .done) :
      Exec (.loop condition update body) s ending.outside after
  | again (condition update body s tried middle updated after ending)
      (tested : m.test condition s = some (true, tried))
      (inside : Exec (.block body) tried .done middle)
      (advanced : m.effect update middle = some updated)
      (rest : Exec (.loop condition update body) updated ending after) :
      Exec (.loop condition update body) s ending after
  | switch (e cases fallback span s subject middle after ending)
      (evaluated : m.eval e s = some (subject, middle))
      (chosen : Exec (.arms subject cases fallback) middle ending after) :
      Exec (.stmt (.switch e cases fallback span)) s ending.outside after
  | hit (subject e body span others fallback s value middle after ending)
      (evaluated : m.eval e s = some (value, middle)) (same : m.equal subject value = true)
      (inside : Exec (.block body) middle ending after) :
      Exec (.arms subject (⟨e, body, span⟩ :: others) fallback) s ending after
  | miss (subject e body span others fallback s value middle after ending)
      (evaluated : m.eval e s = some (value, middle)) (different : m.equal subject value = false)
      (rest : Exec (.arms subject others fallback) middle ending after) :
      Exec (.arms subject (⟨e, body, span⟩ :: others) fallback) s ending after
  | none (subject s) : Exec (.arms subject [] none) s .done s
  | fallback (subject body s after ending) (inside : Exec (.block body) s ending after) :
      Exec (.arms subject [] (some body)) s ending after
  | giveBack (e span s value after) (evaluated : m.eval e s = some (value, after)) :
      Exec (.stmt (.giveBack (some e) span)) s (.gaveBack (some value)) after
  | giveNothing (span s) : Exec (.stmt (.giveBack none span)) s (.gaveBack none) s
  | leave (span s) : Exec (.stmt (.leave span)) s .left s

end
end Curly
