import Extraction.Template.Lexeme
/-!
Templates and how they are read from texts: literal text, printed expressions and choices. A
template is a chain in which each part holds the template after it.
-/

namespace Extraction

inductive TemplateExpr
  | variable (name : String)
  | literal (text : Bytes)
  | attribute (value : TemplateExpr) (name : String)
  | filter (value : TemplateExpr) (name : String)
deriving DecidableEq, Repr

inductive Template
  | done
  | text (text : Bytes) (rest : Template)
  | output (value : TemplateExpr) (rest : Template)
  | choice (condition : TemplateExpr) (yes no rest : Template)
deriving DecidableEq, Repr

namespace TemplateExpr

def parseSuffixes (value : TemplateExpr) : List TemplateWord → Option TemplateExpr
  | [] => some value
  | .symbol 0x2E :: .ident name :: rest => parseSuffixes (.attribute value name) rest
  | .symbol 0x7C :: .ident name :: rest => parseSuffixes (.filter value name) rest
  | _ => none

def parse : List TemplateWord → Option TemplateExpr
  | .ident name :: rest => parseSuffixes (.variable name) rest
  | .literal text :: rest => parseSuffixes (.literal text) rest
  | _ => none

end TemplateExpr

namespace Template

/-- A choice whose end has been read: the template for the other case, if there is one, and the
template after the choice. -/
structure OpenChoice where
  no : Option Template
  rest : Template

/-- Reads pieces from the last to the first: the template they start with, and the choices that
end in them without starting there, innermost first. -/
def ofPieces : List TemplatePiece → Option (Template × List OpenChoice)
  | [] => some (.done, [])
  | piece :: pieces =>
      match ofPieces pieces with
      | none => none
      | some (rest, choices) =>
          match piece with
          | .text lead => some (.text lead rest, choices)
          | .output words =>
              (TemplateExpr.parse words).map fun value => (.output value rest, choices)
          | .tag [.ident "endif"] => some (.done, ⟨none, rest⟩ :: choices)
          | .tag [.ident "else"] =>
              match choices with
              | ⟨none, after⟩ :: choices => some (.done, ⟨some rest, after⟩ :: choices)
              | _ => none
          | .tag (.ident "elif" :: words) =>
              match choices, TemplateExpr.parse words with
              | ⟨no, after⟩ :: choices, some condition =>
                  let other := .choice condition rest (no.getD .done) .done
                  some (.done, ⟨some other, after⟩ :: choices)
              | _, _ => none
          | .tag (.ident "if" :: words) =>
              match choices, TemplateExpr.parse words with
              | ⟨no, after⟩ :: choices, some condition =>
                  some (.choice condition rest (no.getD .done) after, choices)
              | _, _ => none
          | .tag _ => none

def parse? (source : Bytes) : Option Template :=
  match TemplateText.read? (source.length + 1) false source with
  | none => none
  | some pieces =>
      match ofPieces pieces with
      | some (template, []) => some template
      | _ => none

end Template

end Extraction
