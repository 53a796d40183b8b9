import Extraction.Error
import Extraction.Template.Parser
import Extraction.Text.Case
/-!
Rendering a template. A variable that is not defined prints nothing and counts as false, as the
empty text does.
-/

namespace Extraction

abbrev TemplateContext := List (String × Bytes)

inductive AutoEscape
  | none
  | html
deriving DecidableEq, Repr

def escapeHtmlByte (b : UInt8) : Bytes :=
  if b == 0x3C then utf8 "&lt;"
  else if b == 0x3E then utf8 "&gt;"
  else if b == 0x26 then utf8 "&amp;"
  else if b == Byte.doubleQuote then utf8 "&quot;"
  else if b == Byte.apostrophe then utf8 "&#x27;"
  else if b == Byte.slash then utf8 "&#x2f;"
  else [b]

def AutoEscape.escape : AutoEscape → Bytes → Bytes
  | .none, text => text
  | .html, text => text.flatMap escapeHtmlByte

@[simp] theorem AutoEscape.escape_none (text : Bytes) : AutoEscape.none.escape text = text := rfl

def mapText (change : List Char → List Char) (text : Bytes) : Bytes :=
  match text.decode? with
  | some s => utf8 (String.ofList (change s.toList))
  | none => text

def templateFilter? : String → Option (Bytes → Bytes)
  | "upper" => some (mapText upperChars)
  | "lower" => some (mapText lowerChars)
  | _ => none

/-- The value of an expression; `none` is the undefined value. -/
def TemplateExpr.eval (context : TemplateContext) :
    TemplateExpr → Except TemplateFault (Option Bytes)
  | .variable name => .ok (context.lookup name)
  | .literal text => .ok (some text)
  | .attribute value _ =>
      match value.eval context with
      | .error fault => .error fault
      | .ok none => .error .undefinedValue
      | .ok (some _) => .ok none
  | .filter value name =>
      match value.eval context with
      | .error fault => .error fault
      | .ok value =>
          match templateFilter? name with
          | some change => .ok (some (change (value.getD [])))
          | none => .error (.unknownFilter name)

namespace Template

def render (autoEscape : AutoEscape) (context : TemplateContext) :
    Template → Except TemplateFault Bytes
  | .done => .ok []
  | .text lead rest => (rest.render autoEscape context).map (lead ++ ·)
  | .output value rest =>
      match value.eval context with
      | .error fault => .error fault
      | .ok value =>
          (rest.render autoEscape context).map (autoEscape.escape (value.getD []) ++ ·)
  | .choice condition yes no rest =>
      match condition.eval context with
      | .error fault => .error fault
      | .ok value =>
          match if (value.getD []).isEmpty then no.render autoEscape context
            else yes.render autoEscape context with
          | .error fault => .error fault
          | .ok chosen => (rest.render autoEscape context).map (chosen ++ ·)

end Template

end Extraction
