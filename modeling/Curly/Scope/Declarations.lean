import Curly.Syntax

/-! The places where a program declares names, at every depth. -/
namespace Curly

structure Declaration where
  name : String
  position : Position
deriving DecidableEq, Repr

def Param.declaration (p : Param) : Declaration :=
  ⟨p.name, p.span.start⟩

def Identifier.declaration (i : Identifier) : Declaration :=
  ⟨i.name, i.span.start⟩

mutual

def Stmt.declarations : Stmt → List Declaration
  | .variable _ name _ span => [⟨name, span.start⟩]
  | .prototype _ name params span => ⟨name, span.start⟩ :: params.map Param.declaration
  | .function _ name params body span =>
    ⟨name, span.start⟩ :: params.map Param.declaration ++ body.declarations
  | .main body span => ⟨"main", span.start⟩ :: body.declarations
  | .enumeration name values _ span => ⟨name, span.start⟩ :: values.map Identifier.declaration
  | .block body => body.declarations
  | .branch _ yes no _ =>
    yes.declarations ++
      match no with
      | none => []
      | some no => no.declarations
  | .whileLoop _ body _ => body.declarations
  | .doLoop body _ _ => body.declarations
  | .forLoop initial _ _ body _ =>
    (match initial with
      | none => []
      | some initial => initial.declarations) ++ body.declarations
  | .switch _ cases fallback _ =>
    casesDeclarations cases ++
      match fallback with
      | none => []
      | some fallback => fallback.declarations
  | .giveBack .. | .leave .. | .print .. | .evaluate .. | .inclusion .. => []
termination_by structural s => s

def Block.declarations : Block → List Declaration
  | ⟨body, _⟩ => declarations body
termination_by structural b => b

def declarations : List Stmt → List Declaration
  | [] => []
  | s :: others => s.declarations ++ declarations others
termination_by structural body => body

def casesDeclarations : List Case → List Declaration
  | [] => []
  | ⟨_, body, _⟩ :: others => body.declarations ++ casesDeclarations others
termination_by structural cases => cases

end

/-- Each declared name with its places, names in the order of their characters and places in the
order of reading. -/
def declarationIndex (ds : List Declaration) : List (String × List Position) :=
  let names := (ds.map Declaration.name).eraseDups.mergeSort fun a b => !decide (b < a)
  names.map fun name =>
    let places := (ds.filter (·.name = name)).map Declaration.position
    (name, places.mergeSort fun p q => decide (p ≤ q))

def isDeclared (ds : List Declaration) (name : String) : Bool :=
  ds.any (·.name = name)

end Curly
