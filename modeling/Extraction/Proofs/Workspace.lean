import Extraction.Proofs.Paths
import Extraction.Proofs.ReadsOnly
/-!
The workspace that a directory is in. The directories above one are reached by taking the parent
again and again, each of them has one component less, and the workspace is at the nearest of them
that holds a repository.
-/

namespace Extraction

namespace Path

def headComponents : List Char → List PathComponent
  | ['/'] => [.root]
  | ['.'] => [.here]
  | _ => []

def pieceComponent (piece : List Char) : PathComponent :=
  if piece == ['.', '.'] then .parent else .name (String.ofList piece)

theorem components_of_split {path : String} {head : List Char} {body : List (List Char)}
    (hsplit : split path = (head, body)) :
    components path = headComponents head ++ (body.filter isProper).map pieceComponent := by
  have hcomponents : components path =
      headComponents (split path).1 ++ ((split path).2.filter isProper).map pieceComponent := rfl
  rw [hcomponents, hsplit]

theorem filter_dropWhile_isProper (body : List (List Char)) :
    (body.dropWhile (!isProper ·)).filter isProper = body.filter isProper := by
  induction body with
  | nil => rfl
  | cons piece body ih =>
      cases hpiece : isProper piece with
      | true => simp [hpiece]
      | false => simp [hpiece, ih]

theorem split_unsplit_of_prefix {head : List Char} {body kept : List (List Char)}
    (h : Spelled head body) (hkept : kept <+: body) :
    ∃ pieces, split (unsplit head kept) = (head, pieces) ∧
      pieces.filter isProper = kept.filter isProper := by
  cases kept with
  | nil =>
      refine ⟨[[]], ?_, rfl⟩
      rcases h.heads with rfl | ⟨rfl, -⟩ | ⟨rfl, -⟩ <;> rfl
  | cons first kept =>
      exact ⟨_, split_unsplit (h.initial hkept (List.cons_ne_nil _ _)), rfl⟩

/-- A parent has all components but the last. -/
theorem components_parent? {path parent : String} (h : parent? path = some parent) :
    components path ≠ [] ∧ components parent = (components path).dropLast := by
  have hspelled := spelled_split path
  rw [parent?] at h
  rcases hsplit : split path with ⟨head, body⟩
  rw [hsplit] at h hspelled
  have hproper := filter_dropWhile_isProper body.reverse
  simp only at h
  split at h
  · next last before hbody =>
      have hlast : isProper last = true := by
        have hhead := List.head?_dropWhile_not (!isProper ·) body.reverse
        rw [hbody] at hhead
        simpa using hhead
      have hkept : (before.dropWhile (!isProper ·)).reverse <+: body := by
        have hsuffix : before.dropWhile (!isProper ·) <:+ body.reverse :=
          (List.dropWhile_suffix _).trans ((List.suffix_cons last before).trans
            (hbody ▸ List.dropWhile_suffix _))
        simpa using List.reverse_prefix.mpr hsuffix
      have hfilter : body.filter isProper =
          (before.dropWhile (!isProper ·)).reverse.filter isProper ++ [last] := by
        rw [hbody, List.filter_cons_of_pos hlast, List.filter_reverse,
          ← filter_dropWhile_isProper before] at hproper
        rw [List.filter_reverse, ← List.reverse_cons, hproper, List.reverse_reverse]
      obtain ⟨pieces, hpieces, hkeeps⟩ := split_unsplit_of_prefix hspelled hkept
      rw [Option.some.inj h] at hpieces
      rw [components_of_split hsplit, components_of_split hpieces, hfilter, hkeeps]
      simp [← List.append_assoc]
  · next hbody =>
      rw [hbody, List.filter_reverse] at hproper
      have hfilter : body.filter isProper = [] := by simpa using hproper.symm
      split at h
      · next hhead =>
          obtain rfl := Option.some.inj h
          obtain rfl : head = ['.'] := by simpa using hhead
          rw [components_of_split hsplit, hfilter]
          exact ⟨List.cons_ne_nil _ _, rfl⟩
      · cases h

theorem parent?_eq_none {path : String} (h : components path = []) : parent? path = none := by
  cases hparent : parent? path with
  | none => rfl
  | some parent => exact absurd h (components_parent? hparent).1

theorem toList_eq_of_split {path : String} {head : List Char} {body : List (List Char)}
    (hsplit : split path = (head, body)) : path.toList = head ++ ['/'].intercalate body := by
  rw [split] at hsplit
  split at hsplit
  · next rest hpath =>
      cases hsplit
      rw [intercalate_pieces, hpath]
      rfl
  · next hpath =>
      cases hsplit
      exact hpath
  · next rest hpath =>
      cases hsplit
      rw [intercalate_pieces, hpath]
      rfl
  · next =>
      cases hsplit
      rw [intercalate_pieces]
      rfl

theorem length_filter_isProper_le (body : List (List Char)) :
    (body.filter isProper).length ≤ (['/'].intercalate body).length := by
  induction body with
  | nil => exact Nat.le_refl 0
  | cons piece body ih =>
      have hcons : piece.length + (['/'].intercalate body).length ≤
          (['/'].intercalate (piece :: body)).length := by
        cases body with
        | nil => simp
        | cons next body =>
            rw [List.intercalate_cons_cons]
            simp
      cases hproper : isProper piece with
      | false =>
          rw [List.filter_cons_of_neg (by simp [hproper])]
          omega
      | true =>
          have hpiece : 0 < piece.length := by
            apply List.length_pos_of_ne_nil
            rintro rfl
            cases hproper
          rw [List.filter_cons_of_pos hproper, List.length_cons]
          omega

theorem length_components_le (path : String) : (components path).length ≤ path.length := by
  rcases hsplit : split path with ⟨head, body⟩
  have hhead : (headComponents head).length ≤ head.length := by
    unfold headComponents
    split
    · exact Nat.le_refl 1
    · exact Nat.le_refl 1
    · exact Nat.zero_le _
  have hbody := length_filter_isProper_le body
  rw [components_of_split hsplit, ← String.length_toList, toList_eq_of_split hsplit]
  simp only [List.length_append, List.length_map]
  omega

/-- The directory that lies some steps above a path. -/
def above? : Nat → String → Option String
  | 0, path => some path
  | n + 1, path => (parent? path).bind (above? n)

theorem components_prefix_of_above? {n : Nat} {path directory : String}
    (h : above? n path = some directory) : components directory <+: components path := by
  induction n generalizing path with
  | zero =>
      obtain rfl := Option.some.inj h
      exact List.prefix_rfl
  | succ n ih =>
      obtain ⟨parent, hparent, habove⟩ := Option.bind_eq_some_iff.mp h
      refine (ih habove).trans ?_
      rw [(components_parent? hparent).2]
      exact List.dropLast_prefix _

end Path

theorem getElem?_ancestors {steps : Nat} {path : String}
    (hsteps : (Path.components path).length ≤ steps) (n : Nat) :
    (ancestors steps path)[n]? = Path.above? n path := by
  induction steps generalizing path n with
  | zero =>
      have hnone := Path.parent?_eq_none (List.length_eq_zero_iff.mp (Nat.le_zero.mp hsteps))
      cases n with
      | zero => rfl
      | succ n => rw [Path.above?, hnone]; rfl
  | succ steps ih =>
      rw [ancestors]
      cases hparent : Path.parent? path with
      | none =>
          cases n with
          | zero => rfl
          | succ n => rw [Path.above?, hparent]; rfl
      | some parent =>
          have hlength : (Path.components parent).length ≤ steps := by
            rw [(Path.components_parent? hparent).2, List.length_dropLast]
            omega
          cases n with
          | zero => rfl
          | succ n =>
              rw [Path.above?, hparent, List.getElem?_cons_succ, ih hlength]
              rfl

namespace Sandbox

variable (sandbox : Sandbox)

def leadsTo (path : String) : Bool :=
  (sandbox.tree.locate sandbox.directory path).isOk

def holdsRepository (directory : String) : Bool :=
  sandbox.leadsTo (Path.join directory ".git")

/-- The nearest directory that holds a repository, from `current` upwards, or `current` if there
is none. -/
inductive IsWorkspace (current : String) : String → Prop
  | repository {n : Nat} {root : String} (habove : Path.above? n current = some root)
      (hholds : sandbox.holdsRepository root = true)
      (hnearest : ∀ m < n, ∀ directory, Path.above? m current = some directory →
        sandbox.holdsRepository directory = false) : IsWorkspace current root
  | current (hnone : ∀ n directory, Path.above? n current = some directory →
      sandbox.holdsRepository directory = false) : IsWorkspace current current

theorem IsWorkspace.unique {sandbox : Sandbox} {current root other : String}
    (h : sandbox.IsWorkspace current root) (hother : sandbox.IsWorkspace current other) :
    root = other := by
  cases h with
  | @repository n _ habove hholds hnearest =>
      cases hother with
      | @repository m _ habove' hholds' hnearest' =>
          rcases Nat.lt_trichotomy n m with hlt | rfl | hgt
          · rw [hnearest' n hlt root habove] at hholds
            cases hholds
          · exact Option.some.inj (habove.symm.trans habove')
          · rw [hnearest m hgt other habove'] at hholds'
            cases hholds'
      | current hnone =>
          rw [hnone n root habove] at hholds
          cases hholds
  | current hnone =>
      cases hother with
      | repository habove' hholds' _ =>
          rw [hnone _ other habove'] at hholds'
          cases hholds'
      | current => rfl

theorem pathExists_apply (path : String) :
    ((FileSystem.pathExists path : StateM Sandbox _) sandbox).1 = sandbox.leadsTo path := rfl

theorem findWorkspace_apply (fallback : String) (directories : List String) :
    ((findWorkspace fallback directories : StateM Sandbox _) sandbox).1 =
      (directories.find? sandbox.holdsRepository).getD fallback := by
  induction directories with
  | nil => rfl
  | cons directory directories ih =>
      rw [findWorkspace, (readsOnly_pathExists _).bind_apply, pathExists_apply,
        ← holdsRepository, List.find?_cons]
      cases sandbox.holdsRepository directory with
      | true => rfl
      | false => exact ih

theorem isWorkspace_find? (current : String) :
    sandbox.IsWorkspace current
      (((ancestors current.length current).find? sandbox.holdsRepository).getD current) := by
  have hget := getElem?_ancestors (Path.length_components_le current)
  cases hfind : (ancestors current.length current).find? sandbox.holdsRepository with
  | none =>
      refine .current fun n directory habove => ?_
      have hmem := List.mem_of_getElem? ((hget n).trans habove)
      simpa using List.find?_eq_none.mp hfind directory hmem
  | some root =>
      obtain ⟨hholds, n, hn, hroot, hnearest⟩ := List.find?_eq_some_iff_getElem.mp hfind
      refine .repository (n := n) ?_ hholds fun m hm directory habove => ?_
      · rw [← hget n, List.getElem?_eq_getElem hn, hroot]
        rfl
      · have hdirectory := (hget m).trans habove
        rw [List.getElem?_eq_getElem (Nat.lt_trans hm hn)] at hdirectory
        rw [← Option.some.inj hdirectory]
        simpa using hnearest m hm

theorem workspaceFile_apply (environment : Environment) :
    ∃ root, sandbox.IsWorkspace environment.currentDirectory root ∧
      ((workspaceFile environment : StateM Sandbox _) sandbox).1 =
        Path.join root ".ngextract/config.toml" := by
  refine ⟨_, sandbox.isWorkspace_find? environment.currentDirectory, ?_⟩
  rw [workspaceFile, (readsOnly_findWorkspace _ _).bind_apply, findWorkspace_apply]
  rfl

end Sandbox

end Extraction
