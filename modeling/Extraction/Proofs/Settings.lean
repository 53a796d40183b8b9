import Extraction.Config.Layers
/-!
Settings one by one. A configuration is known by what it gives for each of its settings, of merged
layers the last one that makes a setting decides it, and what a document has for a setting is
found under one key of one section.
-/

namespace Extraction

/-- The settings, by the type of their values. -/
inductive Setting : Type → Type
  | suffix : Setting String
  | policy : Setting SuffixPolicy
  | selectorPrefix : Setting String
  | fileSuffix : Setting String
  | tagStyle : Setting TagStyle
  | importSource : Setting String
  | template : Setting String
  | fileExtension : Setting String
  | enabled : Setting Bool
  | blockScan : Setting BlockScan
  | keepImportWithoutBlock : Setting Bool

namespace Setting

def builtin : Setting α → α
  | .suffix => "Component"
  | .policy => .always
  | .selectorPrefix => "app"
  | .fileSuffix => ".component"
  | .tagStyle => .paired
  | .importSource => "@angular/core"
  | .template => "angular_component"
  | .fileExtension => "ts"
  | .enabled => true
  | .blockScan => .firstClose
  | .keepImportWithoutBlock => true

def header : Setting α → String
  | .suffix | .policy | .selectorPrefix | .fileSuffix | .tagStyle => "naming"
  | .importSource | .template | .fileExtension => "template"
  | .enabled | .blockScan | .keepImportWithoutBlock => "rewrite"

def key : Setting α → String
  | .suffix => "suffix"
  | .policy => "suffix_policy"
  | .selectorPrefix => "selector_prefix"
  | .fileSuffix => "file_suffix"
  | .tagStyle => "tag_style"
  | .importSource => "import_source"
  | .template => "name"
  | .fileExtension => "file_extension"
  | .enabled => "enabled"
  | .blockScan => "block_scan"
  | .keepImportWithoutBlock => "keep_import_without_block"

/-- The place of a setting in a section that is an array. -/
def position : Setting α → Nat
  | .suffix | .importSource | .enabled => 0
  | .policy | .template | .blockScan => 1
  | .selectorPrefix | .fileExtension | .keepImportWithoutBlock => 2
  | .fileSuffix => 3
  | .tagStyle => 4

def read : Setting α → TomlValue → Option α
  | .policy => TomlValue.asNamed? SuffixPolicy.ofName?
  | .tagStyle => TomlValue.asNamed? TagStyle.ofName?
  | .blockScan => TomlValue.asNamed? BlockScan.ofName?
  | .enabled | .keepImportWithoutBlock => TomlValue.asBoolean?
  | .suffix | .selectorPrefix | .fileSuffix => TomlValue.asString?
  | .importSource | .template | .fileExtension => TomlValue.asString?

def found? (setting : Setting α) (entries : TomlEntries) : Option TomlValue :=
  match entries.lookup setting.header with
  | some (.table _ section_) => section_.lookup setting.key
  | some (.array elements) => elements[setting.position]?
  | some (.tables elements) => elements[setting.position]?
  | _ => none

/-- A setting as a document makes it or leaves it out; the outer `none` tells that the document has
a value of the wrong kind for it. -/
def given? (setting : Setting α) (entries : TomlEntries) : Option (Option α) :=
  match setting.found? entries with
  | none => some none
  | some found => (setting.read found).map some

theorem setting?_eq (setting : Setting α) (entries : TomlEntries) :
    TomlValue.setting? setting.position setting.key setting.read
      (entries.lookup setting.header) = setting.given? entries := rfl

end Setting

namespace Config

def get? (config : Config) : Setting α → Option α
  | .suffix => config.naming.suffix
  | .policy => config.naming.policy
  | .selectorPrefix => config.naming.selectorPrefix
  | .fileSuffix => config.naming.fileSuffix
  | .tagStyle => config.naming.tagStyle
  | .importSource => config.template.importSource
  | .template => config.template.name
  | .fileExtension => config.template.fileExtension
  | .enabled => config.rewire.enabled
  | .blockScan => config.rewire.blockScan
  | .keepImportWithoutBlock => config.rewire.keepImportWithoutBlock

theorem ext_get? {config other : Config}
    (h : ∀ {α : Type} (setting : Setting α), config.get? setting = other.get? setting) :
    config = other := by
  obtain ⟨⟨suffix, policy, selectorPrefix, fileSuffix, tagStyle⟩,
    ⟨importSource, template, fileExtension⟩, ⟨enabled, blockScan, keepImport⟩⟩ := config
  obtain ⟨⟨suffix', policy', selectorPrefix', fileSuffix', tagStyle'⟩,
    ⟨importSource', template', fileExtension'⟩, ⟨enabled', blockScan', keepImport'⟩⟩ := other
  obtain rfl : suffix = suffix' := h .suffix
  obtain rfl : policy = policy' := h .policy
  obtain rfl : selectorPrefix = selectorPrefix' := h .selectorPrefix
  obtain rfl : fileSuffix = fileSuffix' := h .fileSuffix
  obtain rfl : tagStyle = tagStyle' := h .tagStyle
  obtain rfl : importSource = importSource' := h .importSource
  obtain rfl : template = template' := h .template
  obtain rfl : fileExtension = fileExtension' := h .fileExtension
  obtain rfl : enabled = enabled' := h .enabled
  obtain rfl : blockScan = blockScan' := h .blockScan
  obtain rfl : keepImport = keepImport' := h .keepImportWithoutBlock
  rfl

@[simp] theorem get?_empty (setting : Setting α) : ({} : Config).get? setting = none := by
  cases setting <;> rfl

@[simp] theorem get?_merge (base overlay : Config) (setting : Setting α) :
    (base.merge overlay).get? setting = (overlay.get? setting).or (base.get? setting) := by
  cases setting <;> exact Option.orElse_eq_or

@[simp] theorem merge_empty (config : Config) : config.merge {} = config :=
  ext_get? fun setting => by rw [get?_merge, get?_empty, Option.none_or]

theorem get?_builtin (setting : Setting α) : builtin.get? setting = some setting.builtin := by
  cases setting <;> rfl

theorem ofToml?_of_chars {document : String} {cs : List Char} {config : Config}
    (hchars : document = String.ofList cs)
    (hread : (TomlDocument.read? cs).bind ofEntries? = some config) :
    ofToml? document = some config := by
  rw [ofToml?, TomlDocument.parse?, hchars, String.toList_ofList, ← hread]
  cases TomlDocument.read? cs <;> rfl

def lastSet? (layers : List Config) (setting : Setting α) : Option α :=
  layers.reverse.findSome? (·.get? setting)

theorem lastSet?_append (lower upper : List Config) (setting : Setting α) :
    lastSet? (lower ++ upper) setting = (lastSet? upper setting).or (lastSet? lower setting) := by
  rw [lastSet?, List.reverse_append, List.findSome?_append]
  rfl

@[simp] theorem lastSet?_singleton (config : Config) (setting : Setting α) :
    lastSet? [config] setting = config.get? setting := by
  rw [lastSet?, List.reverse_singleton, List.findSome?_singleton]

theorem get?_foldl_merge (layers : List Config) (base : Config) (setting : Setting α) :
    (layers.foldl merge base).get? setting =
      (lastSet? layers setting).or (base.get? setting) := by
  induction layers generalizing base with
  | nil => rfl
  | cons layer layers ih =>
      rw [List.foldl_cons, ih, get?_merge, ← List.singleton_append, lastSet?_append,
        lastSet?_singleton, Option.or_assoc]

end Config

/-- Layers in the order in which they lie on each other, grouped to be merged two at a time. -/
inductive Grouping
  | layer (config : Config)
  | merge (base overlay : Grouping)

namespace Grouping

def layers : Grouping → List Config
  | .layer config => [config]
  | .merge base overlay => base.layers ++ overlay.layers

def merged : Grouping → Config
  | .layer config => config
  | .merge base overlay => base.merged.merge overlay.merged

theorem get?_merged (grouping : Grouping) (setting : Setting α) :
    grouping.merged.get? setting = Config.lastSet? grouping.layers setting := by
  induction grouping with
  | layer config => exact (Config.lastSet?_singleton config setting).symm
  | merge base overlay ihBase ihOverlay =>
      rw [merged, layers, Config.get?_merge, Config.lastSet?_append, ihBase, ihOverlay]

end Grouping

namespace Config

theorem ofEntries?_eq_some_iff {entries : TomlEntries} {config : Config} :
    ofEntries? entries = some config ↔
      (∀ header ∈ ["naming", "template", "rewrite"],
        (entries.lookup header).all TomlValue.isSection = true) ∧
      ∀ {α : Type} (setting : Setting α),
        setting.given? entries = some (config.get? setting) := by
  have hsections : (∀ header ∈ ["naming", "template", "rewrite"],
      (entries.lookup header).all TomlValue.isSection = true) ↔
        ((entries.lookup "naming").all TomlValue.isSection &&
          (entries.lookup "template").all TomlValue.isSection &&
          (entries.lookup "rewrite").all TomlValue.isSection) = true := by
    simp [and_assoc]
  rw [hsections]
  simp only [ofEntries?]
  constructor
  · intro h
    split at h
    · next hsome =>
      refine ⟨hsome, ?_⟩
      simp only [Option.bind_eq_bind, Option.bind_eq_some_iff] at h
      obtain ⟨suffix, hsuffix, policy, hpolicy, prefix_, hprefix, fileSuffix, hfileSuffix,
        tagStyle, htagStyle, source, hsource, template, htemplate, extension, hextension,
        enabled, henabled, blockScan, hblockScan, keep, hkeep, hconfig⟩ := h
      cases hconfig
      intro α setting
      rw [← Setting.setting?_eq]
      cases setting <;> assumption
    · cases h
  · rintro ⟨hsome, hgiven⟩
    rw [if_pos hsome]
    simp only [Option.bind_eq_bind, Option.bind_eq_some_iff]
    exact ⟨_, hgiven .suffix, _, hgiven .policy, _, hgiven .selectorPrefix, _,
      hgiven .fileSuffix, _, hgiven .tagStyle, _, hgiven .importSource, _, hgiven .template, _,
      hgiven .fileExtension, _, hgiven .enabled, _, hgiven .blockScan, _,
      hgiven .keepImportWithoutBlock, rfl⟩

end Config

end Extraction
