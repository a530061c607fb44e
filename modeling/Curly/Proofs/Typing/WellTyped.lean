import Curly.Proofs.Typing.Context
import Curly.Proofs.Typing.Derivation

/-! When a program is well typed, statement by statement. A statement is judged where it stands: by
the symbols in the scopes around it, by what the function around it is to return, and by whether a
loop or a switch of that function is around it. -/
namespace Curly

/-- Where a statement stands. -/
structure Site where
  /-- The symbols of the current scope, in the order of declaration. -/
  here : List Symbol
  around : Scopes
  /-- What the function around the statement is to return, if one is around it. -/
  returns? : Option Ty
  breakable : Bool

/-- A scope with a function, which is there once for each list of parameters. -/
def withFunction (name : String) (ty : Ty) (params : List Ty) (position : Position)
    (scope : List Symbol) : List Symbol :=
  if ∃ s ∈ scope, s.name = name ∧ s.params? = some params then scope
  else scope ++ [.ofFunction name ty params false position]

def Param.symbol (p : Param) : Symbol :=
  .ofVariable p.name p.ty p.span.start

def Identifier.enumValue (value : Identifier) : Symbol :=
  .ofEnumValue value.name value.span.start

/-- The scope of a statement behind it. What is declared inside the statement is gone. -/
def Stmt.scopeBehind : Stmt → List Symbol → List Symbol
  | .variable ty name _ span, scope => scope ++ [.ofVariable name ty span.start]
  | .prototype ty name ps span, scope | .function ty name ps _ span, scope =>
    withFunction name ty (signature ps) span.start scope
  | .main _ span, scope => withFunction "main" .int [] span.start scope
  | .enumeration name values _ span, scope =>
    scope ++ .ofEnumeration name span.start :: values.map Identifier.enumValue
  | .block _, scope | .branch .., scope | .whileLoop .., scope | .doLoop .., scope
  | .forLoop .., scope | .switch .., scope | .giveBack .., scope | .leave _, scope
  | .print .., scope | .evaluate .., scope | .inclusion .., scope => scope

namespace Site

def outermost : Site :=
  ⟨[], [], none, false⟩

def scopes (site : Site) : Scopes :=
  site.here :: site.around

def enter (site : Site) : Site :=
  { site with here := [], around := site.scopes }

def behind (s : Stmt) (site : Site) : Site :=
  { site with here := s.scopeBehind site.here }

def breaking (site : Site) : Site :=
  { site with breakable := true }

/-- The body of a function stands in the scope of its parameters. -/
def within (ty : Ty) (ps : List Param) (site : Site) : Site :=
  ⟨ps.map Param.symbol, site.scopes, some ty, false⟩

end Site

open Typing

mutual

/-- Conditions are truth values, and values fit where they go. A function that is to return a value
returns one somewhere, though not on every path. -/
def Stmt.WellTyped : Stmt → Site → Prop
  | .variable ty _ initial _, site =>
    ty ≠ .void ∧ ∀ e ∈ initial, ∃ found, Gives site.scopes e found ∧ ty.Compatible found
  | .function ty name ps body span, site =>
    body.WellTyped ((site.behind (.function ty name ps body span)).within ty ps) ∧
      (ty = .void ∨ body.returnsValue)
  | .main body span, site => body.WellTyped ((site.behind (.main body span)).within .int [])
  | .block body, site => body.WellTyped site.enter
  | .branch e yes no _, site =>
    Derives site.scopes e .bool ∧ yes.WellTyped site.enter ∧
      match no with
      | none => True
      | some no => no.WellTyped site.enter
  | .whileLoop e body _, site | .doLoop body e _, site =>
    Derives site.scopes e .bool ∧ body.WellTyped site.breaking.enter
  | .forLoop initial test update body _, site =>
    let begun := match initial with
      | none => site.enter
      | some initial => site.enter.behind initial
    (match initial with
      | none => True
      | some initial => initial.WellTyped site.enter) ∧
      (∀ e ∈ test, Derives begun.scopes e .bool) ∧
      (∀ e ∈ update, ∃ ty, Derives begun.scopes e ty) ∧
      body.WellTyped begun.breaking.enter
  | .switch e cases fallback _, site =>
    (∃ ty, Derives site.scopes e ty ∧ (ty = .int ∨ ty = .char) ∧
      ∀ arm ∈ cases, Derives site.scopes arm.value ty) ∧
      ArmsWellTyped cases site.breaking ∧
      match fallback with
      | none => True
      | some fallback => fallback.WellTyped site.breaking.enter
  | .giveBack none _, site => site.returns? = some .void
  | .giveBack (some e) _, site =>
    ∃ ty found, site.returns? = some ty ∧ ty ≠ .void ∧ Gives site.scopes e found ∧
      ty.Compatible found
  | .leave _, site => site.breakable
  | .print args _, site => ∀ e ∈ args, ∃ ty, Gives site.scopes e ty
  | .evaluate e _, site => ∃ ty, Derives site.scopes e ty
  | .prototype .., _ | .enumeration .., _ | .inclusion .., _ => True
termination_by structural s => s

def Block.WellTyped : Block → Site → Prop
  | ⟨body, _⟩, site => BodyWellTyped body site
termination_by structural body => body

def BodyWellTyped : List Stmt → Site → Prop
  | [], _ => True
  | s :: others, site => s.WellTyped site ∧ BodyWellTyped others (site.behind s)
termination_by structural body => body

def ArmsWellTyped : List Case → Site → Prop
  | [], _ => True
  | ⟨_, body, _⟩ :: others, site => body.WellTyped site.enter ∧ ArmsWellTyped others site
termination_by structural cases => cases

end

def Program.WellTyped (p : Program) : Prop :=
  BodyWellTyped p.body .outermost

end Curly
