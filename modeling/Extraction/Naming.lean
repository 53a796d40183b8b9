import Extraction.Error
import Extraction.Text.Blank
import Extraction.Text.Case
/-!
The names of a component, all derived from one hyphenated identifier: its class, its file, its
selector and the tag that refers to it.
-/

namespace Extraction

structure Identifier where
  text : String
  ne_empty : text ≠ ""
deriving DecidableEq, Repr

def Identifier.parse (raw : String) : Except ExtractError Identifier :=
  if h : trimmed raw = "" then .error .emptyIdentifier else .ok ⟨trimmed raw, h⟩

/-- Whether the suffix is also added to a name that ends with it. -/
inductive SuffixPolicy
  | always
  | ifMissing
deriving DecidableEq, Repr

namespace SuffixPolicy

instance : Inhabited SuffixPolicy := ⟨.always⟩

def name : SuffixPolicy → String
  | .always => "always"
  | .ifMissing => "if-missing"

def ofName? : String → Option SuffixPolicy
  | "always" => some .always
  | "if-missing" => some .ifMissing
  | _ => none

def parse (value : String) : Except String SuffixPolicy :=
  match normalWord value with
  | "always" => .ok .always
  | "if-missing" | "if_missing" | "ifmissing" => .ok .ifMissing
  | other => .error other

def apply (policy : SuffixPolicy) (pascal suffix : String) : String :=
  match policy with
  | .always => pascal ++ suffix
  | .ifMissing =>
      if suffix.toList.isSuffixOf pascal.toList then pascal else pascal ++ suffix

end SuffixPolicy

inductive TagStyle
  | paired
  | selfClosing
deriving DecidableEq, Repr

namespace TagStyle

instance : Inhabited TagStyle := ⟨.paired⟩

def name : TagStyle → String
  | .paired => "paired"
  | .selfClosing => "self-closing"

def ofName? : String → Option TagStyle
  | "paired" => some .paired
  | "self-closing" => some .selfClosing
  | _ => none

def parse (value : String) : Except String TagStyle :=
  match normalWord value with
  | "paired" | "pair" => .ok .paired
  | "self-closing" | "self_closing" | "selfclosing" => .ok .selfClosing
  | other => .error other

def render (style : TagStyle) (selector : String) : String :=
  match style with
  | .paired => "<" ++ selector ++ "></" ++ selector ++ ">"
  | .selfClosing => "<" ++ selector ++ " />"

end TagStyle

structure NamingOptions where
  suffix : String := "Component"
  policy : SuffixPolicy := .always
  selectorPrefix : String := "app"
  fileSuffix : String := ".component"
  tagStyle : TagStyle := .paired
deriving DecidableEq, Repr

/-- Hyphenated characters in Pascal case: hyphens are dropped and the first character of each
segment is raised; `atStart` tells that a segment starts here. -/
def pascalChars (atStart : Bool) : List Char → List Char
  | [] => []
  | '-' :: rest => pascalChars true rest
  | c :: rest => (if atStart then upperChar c else [c]) ++ pascalChars false rest

def pascalCase (identifier : String) : String :=
  String.ofList (pascalChars true identifier.toList)

structure ComponentNames where
  identifier : Identifier
  symbolicName : String
  fileBaseName : String
  selector : String
  referenceTag : String
deriving DecidableEq, Repr

def NamingOptions.selector (options : NamingOptions) (identifier : Identifier) : String :=
  if options.selectorPrefix = "" then identifier.text
  else options.selectorPrefix ++ "-" ++ identifier.text

def NamingOptions.derive (options : NamingOptions) (identifier : Identifier) : ComponentNames :=
  { identifier
    symbolicName := options.policy.apply (pascalCase identifier.text) options.suffix
    fileBaseName := identifier.text ++ options.fileSuffix
    selector := options.selector identifier
    referenceTag := options.tagStyle.render (options.selector identifier) }

/-- The module that the new file is for a file beside it. -/
def ComponentNames.modulePath (names : ComponentNames) : String :=
  "./" ++ names.fileBaseName

end Extraction
