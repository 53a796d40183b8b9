import Extraction.Proofs.FileRun
import Extraction.Proofs.TreeEdits
/-!
What is done to files and to the buffer of a host, one primitive after another. Files are only
added, each where nothing was, and the buffer is marked as edited by the primitives that edit it.
-/

namespace Extraction

inductive Primitive
  | create (path : String) (content : Bytes)
  | replaceRange (span : Span) (text : Bytes)
  | replaceAll (text : Bytes)
deriving DecidableEq, Repr

structure FileState where
  host : FileHost
  tree : FileTree
deriving DecidableEq, Repr

namespace FileHost

def edit (host : FileHost) (buffer : Bytes) : FileHost :=
  { host with buffer, edited := true }

end FileHost

namespace Primitive

def perform (directory : List String) : Primitive → FileState → Option FileState
  | .create path content, s =>
      (s.tree.create directory path content).toOption.map fun tree => { s with tree }
  | .replaceRange span text, s =>
      (spliceBuffer s.host.buffer span text).toOption.map fun buffer =>
        { s with host := s.host.edit buffer }
  | .replaceAll text, s => some { s with host := s.host.edit text }

def isEdit : Primitive → Bool
  | .create _ _ => false
  | .replaceRange _ _ | .replaceAll _ => true

/-- The primitives that can be performed one after another, up to the first that fails. -/
def performable (directory : List String) : List Primitive → FileState → List Primitive
  | [], _ => []
  | primitive :: rest, s =>
      match primitive.perform directory s with
      | none => []
      | some next => primitive :: performable directory rest next

end Primitive

/-- Primitives that were all performed, one after another. -/
inductive Performs (directory : List String) : List Primitive → FileState → FileState → Prop
  | nil {s : FileState} : Performs directory [] s s
  | cons {primitive : Primitive} {rest : List Primitive} {s next last : FileState}
      (hfirst : primitive.perform directory s = some next)
      (hrest : Performs directory rest next last) : Performs directory (primitive :: rest) s last

inductive Adds (directory : List String) : List Primitive → FileState → List String → Bytes → Prop
  | here {path : String} {content : Bytes} {rest : List Primitive} {s : FileState}
      {key : List String} (hkey : s.tree.destination directory path = .ok (.name key))
      (hfree : s.tree.entry? key = none) :
      Adds directory (.create path content :: rest) s key content
  | later {primitive : Primitive} {rest : List Primitive} {s next : FileState}
      {key : List String} {content : Bytes} (hfirst : primitive.perform directory s = some next)
      (hrest : Adds directory rest next key content) :
      Adds directory (primitive :: rest) s key content

variable {directory : List String}

namespace Primitive

variable {primitive : Primitive} {s next : FileState}

theorem of_perform_create {path : String} {content : Bytes}
    (h : (create path content).perform directory s = some next) :
    ∃ key, s.tree.destination directory path = .ok (.name key) ∧ s.tree.entry? key = none ∧
      next = { s with tree := s.tree.put key (.file content) } := by
  obtain ⟨tree, htree, rfl⟩ := Option.map_eq_some_iff.mp h
  cases hcreate : s.tree.create directory path content with
  | error cause =>
      rw [hcreate] at htree
      cases htree
  | ok created =>
      rw [hcreate] at htree
      obtain rfl := Option.some.inj htree
      obtain ⟨key, hkey, hfree, rfl⟩ := FileTree.of_create_ok hcreate
      exact ⟨key, hkey, hfree, rfl⟩

theorem of_perform_edit (hedit : primitive.isEdit = true)
    (h : primitive.perform directory s = some next) :
    ∃ buffer, next = { s with host := s.host.edit buffer } := by
  cases primitive with
  | create => cases hedit
  | replaceRange span text =>
      obtain ⟨buffer, -, rfl⟩ := Option.map_eq_some_iff.mp h
      exact ⟨buffer, rfl⟩
  | replaceAll text =>
      obtain rfl := Option.some.inj h
      exact ⟨text, rfl⟩

theorem extends_of_perform (h : primitive.perform directory s = some next) :
    s.tree.Extends next.tree := by
  cases primitive with
  | create path content =>
      obtain ⟨key, -, hfree, rfl⟩ := of_perform_create h
      exact FileTree.extends_put hfree
  | replaceRange | replaceAll =>
      obtain ⟨buffer, rfl⟩ := of_perform_edit rfl h
      exact .refl _

theorem host_of_perform (h : primitive.perform directory s = some next) :
    next.host.path = s.host.path ∧
      next.host.edited = (s.host.edited || primitive.isEdit) := by
  cases primitive with
  | create path content =>
      obtain ⟨key, -, -, rfl⟩ := of_perform_create h
      exact ⟨rfl, (Bool.or_false _).symm⟩
  | replaceRange | replaceAll =>
      obtain ⟨buffer, rfl⟩ := of_perform_edit rfl h
      exact ⟨rfl, (Bool.or_true _).symm⟩

theorem performable_cons (h : primitive.perform directory s = some next)
    (rest : List Primitive) :
    performable directory (primitive :: rest) s = primitive :: performable directory rest next := by
  rw [performable, h]

end Primitive

theorem Adds.free {log : List Primitive} {s : FileState} {key : List String} {content : Bytes}
    (h : Adds directory log s key content) : s.tree.entry? key = none := by
  induction h with
  | here _ hfree => exact hfree
  | @later _ _ s _ key _ hfirst _ ih =>
      cases hentry : s.tree.entry? key with
      | none => rfl
      | some entry =>
          have hkept := Primitive.extends_of_perform hfirst key entry hentry
          cases ih.symm.trans hkept

namespace Performs

variable {done more : List Primitive} {s next last : FileState}

theorem single {primitive : Primitive} (h : primitive.perform directory s = some next) :
    Performs directory [primitive] s next := .cons h .nil

theorem append (h : Performs directory done s next) (hmore : Performs directory more next last) :
    Performs directory (done ++ more) s last := by
  induction h with
  | nil => exact hmore
  | cons hfirst _ ih => exact .cons hfirst (ih hmore)

theorem performable_eq (h : Performs directory done s last) :
    Primitive.performable directory done s = done := by
  induction h with
  | nil => rfl
  | cons hfirst _ ih => rw [Primitive.performable_cons hfirst, ih]

theorem performable_stopped (h : Performs directory done s last) {failing : Primitive}
    (hfails : failing.perform directory last = none) (rest : List Primitive) :
    Primitive.performable directory (done ++ failing :: rest) s = done := by
  induction h with
  | nil => rw [List.nil_append, Primitive.performable, hfails]
  | cons hfirst _ ih =>
      rw [List.cons_append, Primitive.performable_cons hfirst, ih hfails]

theorem host_eq (h : Performs directory done s last) :
    last.host.path = s.host.path ∧
      last.host.edited = (s.host.edited || done.any Primitive.isEdit) := by
  induction h with
  | nil => exact ⟨rfl, (Bool.or_false _).symm⟩
  | cons hfirst _ ih =>
      obtain ⟨hpath, hedited⟩ := Primitive.host_of_perform hfirst
      refine ⟨ih.1.trans hpath, ?_⟩
      rw [ih.2, hedited, List.any_cons, Bool.or_assoc]

theorem extends_tree (h : Performs directory done s last) : s.tree.Extends last.tree := by
  induction h with
  | nil => exact .refl _
  | cons hfirst _ ih => exact (Primitive.extends_of_perform hfirst).trans ih

theorem of_entry (h : Performs directory done s last) {key : List String} {entry : FileEntry}
    (hentry : last.tree.entry? key = some entry) :
    s.tree.entry? key = some entry ∨
      ∃ content, entry = .file content ∧ Adds directory done s key content := by
  induction h with
  | nil => exact .inl hentry
  | @cons primitive rest s next last hfirst _ ih =>
      rcases ih hentry with hnext | ⟨content, rfl, hadds⟩
      · cases primitive with
        | create path content =>
            obtain ⟨created, hkey, hfree, rfl⟩ := Primitive.of_perform_create hfirst
            have hne : created ≠ [] := FileTree.ne_nil_of_entry? (by rw [hfree]; exact nofun)
            rw [FileTree.entry?_put s.tree hne] at hnext
            split at hnext
            · next heq =>
                obtain rfl := heq
                exact .inr ⟨content, (Option.some.inj hnext).symm, .here hkey hfree⟩
            · exact .inl hnext
        | replaceRange | replaceAll =>
            obtain ⟨buffer, rfl⟩ := Primitive.of_perform_edit rfl hfirst
            exact .inl hnext
      · exact .inr ⟨content, rfl, .later hfirst hadds⟩

theorem entry_of_adds (h : Performs directory done s last) {key : List String} {content : Bytes}
    (hadds : Adds directory done s key content) :
    last.tree.entry? key = some (.file content) := by
  induction h with
  | nil => cases hadds
  | cons hfirst hrest ih =>
      cases hadds with
      | here hkey hfree =>
          obtain ⟨created, hcreated, -, rfl⟩ := Primitive.of_perform_create hfirst
          cases hkey.symm.trans hcreated
          have hne : key ≠ [] := FileTree.ne_nil_of_entry? (by rw [hfree]; exact nofun)
          apply hrest.extends_tree
          rw [FileTree.entry?_put _ hne, if_pos rfl]
      | later hfirst' hadds =>
          cases hfirst.symm.trans hfirst'
          exact ih hadds

end Performs

end Extraction
