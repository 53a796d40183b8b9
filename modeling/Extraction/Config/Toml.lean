import Extraction.Config.Basic
import Extraction.Toml.Document
import Extraction.Toml.Writer
/-!
Configurations as TOML documents, with a section for naming, one for templates and one for
rewiring. Keys that mean nothing are skipped. An array in place of a section gives its settings in
order.
-/

namespace Extraction

namespace TomlValue

def asString? : TomlValue → Option String
  | .string text => some text
  | _ => none

def asBoolean? : TomlValue → Option Bool
  | .boolean value => some value
  | _ => none

/-- Whether a value is an array or a table without anything in it. -/
def isHollow : TomlValue → Bool
  | .array [] => true
  | .tables [] => true
  | .table _ [] => true
  | _ => false

/-- A value that is one of some names: the name as a string, or as the only key of a table whose
value is hollow. -/
def asNamed? (ofName? : String → Option α) : TomlValue → Option α
  | .string text => ofName? text
  | .table _ [(name, value)] => if value.isHollow then ofName? name else none
  | _ => none

/-- The setting of a section by its key, or by its position if the section is an array. The
outer `none` tells that the value is of the wrong kind. -/
def setting? (position : Nat) (key : String) (read : TomlValue → Option α)
    (section? : Option TomlValue) : Option (Option α) :=
  let found :=
    match section? with
    | some (.table _ entries) => entries.lookup key
    | some (.array elements) => elements[position]?
    | some (.tables elements) => elements[position]?
    | _ => none
  match found with
  | none => some none
  | some value => (read value).map some

def isSection : TomlValue → Bool
  | .table _ _ => true
  | .array _ => true
  | .tables _ => true
  | _ => false

end TomlValue

namespace Config

open TomlValue in
def ofEntries? (entries : TomlEntries) : Option Config :=
  let naming := entries.lookup "naming"
  let template := entries.lookup "template"
  let rewire := entries.lookup "rewrite"
  if naming.all isSection && template.all isSection && rewire.all isSection then do
    return {
      naming :=
        { suffix := ← setting? 0 "suffix" asString? naming
          policy := ← setting? 1 "suffix_policy" (asNamed? SuffixPolicy.ofName?) naming
          selectorPrefix := ← setting? 2 "selector_prefix" asString? naming
          fileSuffix := ← setting? 3 "file_suffix" asString? naming
          tagStyle := ← setting? 4 "tag_style" (asNamed? TagStyle.ofName?) naming }
      template :=
        { importSource := ← setting? 0 "import_source" asString? template
          name := ← setting? 1 "name" asString? template
          fileExtension := ← setting? 2 "file_extension" asString? template }
      rewire :=
        { enabled := ← setting? 0 "enabled" asBoolean? rewire
          blockScan := ← setting? 1 "block_scan" (asNamed? BlockScan.ofName?) rewire
          keepImportWithoutBlock :=
            ← setting? 2 "keep_import_without_block" asBoolean? rewire } }
  else none

def ofToml? (document : String) : Option Config :=
  match TomlDocument.parse? document with
  | none => none
  | some entries => ofEntries? entries

def settingLine (key : String) (value : Option String) : String :=
  match value with
  | none => ""
  | some value => key ++ " = " ++ value ++ "\n"

def writeNamed (value : Option α) (name : α → String) : Option String :=
  value.map fun value => TomlText.write (name value)

def writeBoolean (value : Option Bool) : Option String :=
  value.map fun value => if value then "true" else "false"

def toToml (config : Config) : String :=
  "[naming]\n" ++
    settingLine "suffix" (config.naming.suffix.map TomlText.write) ++
    settingLine "suffix_policy" (writeNamed config.naming.policy SuffixPolicy.name) ++
    settingLine "selector_prefix" (config.naming.selectorPrefix.map TomlText.write) ++
    settingLine "file_suffix" (config.naming.fileSuffix.map TomlText.write) ++
    settingLine "tag_style" (writeNamed config.naming.tagStyle TagStyle.name) ++
  "\n[template]\n" ++
    settingLine "import_source" (config.template.importSource.map TomlText.write) ++
    settingLine "name" (config.template.name.map TomlText.write) ++
    settingLine "file_extension" (config.template.fileExtension.map TomlText.write) ++
  "\n[rewrite]\n" ++
    settingLine "enabled" (writeBoolean config.rewire.enabled) ++
    settingLine "block_scan" (writeNamed config.rewire.blockScan BlockScan.name) ++
    settingLine "keep_import_without_block" (writeBoolean config.rewire.keepImportWithoutBlock)

end Config

end Extraction
