import Extraction.Plan
/-!
The settings that a configuration layer can make. Each of the eleven settings may be missing from
a layer; of two layers the later one wins, setting by setting.
-/

namespace Extraction

structure NamingSettings where
  suffix : Option String := none
  policy : Option SuffixPolicy := none
  selectorPrefix : Option String := none
  fileSuffix : Option String := none
  tagStyle : Option TagStyle := none
deriving DecidableEq, Repr

structure TemplateSettings where
  importSource : Option String := none
  name : Option String := none
  fileExtension : Option String := none
deriving DecidableEq, Repr

structure RewireSettings where
  enabled : Option Bool := none
  blockScan : Option BlockScan := none
  keepImportWithoutBlock : Option Bool := none
deriving DecidableEq, Repr

structure Config where
  naming : NamingSettings := {}
  template : TemplateSettings := {}
  rewire : RewireSettings := {}
deriving DecidableEq, Repr

def Config.options (config : Config) (defaults : ExtractOptions := {}) : ExtractOptions :=
  { naming :=
      { suffix := config.naming.suffix.getD defaults.naming.suffix
        policy := config.naming.policy.getD defaults.naming.policy
        selectorPrefix := config.naming.selectorPrefix.getD defaults.naming.selectorPrefix
        fileSuffix := config.naming.fileSuffix.getD defaults.naming.fileSuffix
        tagStyle := config.naming.tagStyle.getD defaults.naming.tagStyle }
    synthesis :=
      { importSource := config.template.importSource.getD defaults.synthesis.importSource
        template := config.template.name.getD defaults.synthesis.template
        fileExtension := config.template.fileExtension.getD defaults.synthesis.fileExtension }
    rewireEnclosing := config.rewire.enabled.getD defaults.rewireEnclosing
    blockScan := config.rewire.blockScan.getD defaults.blockScan
    keepImportWithoutBlock :=
      config.rewire.keepImportWithoutBlock.getD defaults.keepImportWithoutBlock }

def ExtractOptions.toConfig (options : ExtractOptions) : Config :=
  { naming :=
      { suffix := some options.naming.suffix
        policy := some options.naming.policy
        selectorPrefix := some options.naming.selectorPrefix
        fileSuffix := some options.naming.fileSuffix
        tagStyle := some options.naming.tagStyle }
    template :=
      { importSource := some options.synthesis.importSource
        name := some options.synthesis.template
        fileExtension := some options.synthesis.fileExtension }
    rewire :=
      { enabled := some options.rewireEnclosing
        blockScan := some options.blockScan
        keepImportWithoutBlock := some options.keepImportWithoutBlock } }

def Config.builtin : Config :=
  ExtractOptions.toConfig {}

/-- The settings of a layer over those of the layers below it. -/
def Config.merge (base overlay : Config) : Config :=
  { naming :=
      { suffix := overlay.naming.suffix <|> base.naming.suffix
        policy := overlay.naming.policy <|> base.naming.policy
        selectorPrefix := overlay.naming.selectorPrefix <|> base.naming.selectorPrefix
        fileSuffix := overlay.naming.fileSuffix <|> base.naming.fileSuffix
        tagStyle := overlay.naming.tagStyle <|> base.naming.tagStyle }
    template :=
      { importSource := overlay.template.importSource <|> base.template.importSource
        name := overlay.template.name <|> base.template.name
        fileExtension := overlay.template.fileExtension <|> base.template.fileExtension }
    rewire :=
      { enabled := overlay.rewire.enabled <|> base.rewire.enabled
        blockScan := overlay.rewire.blockScan <|> base.rewire.blockScan
        keepImportWithoutBlock :=
          overlay.rewire.keepImportWithoutBlock <|> base.rewire.keepImportWithoutBlock } }

end Extraction
