import Extraction.FileTree
import Extraction.Proofs.Paths
/-!
File trees that gain or replace a file. A walk that leads somewhere still leads there once a file
stands under a key that was free, and a path that was read as a file is written under the key that
it was read at.
-/

namespace Extraction

namespace FileTree

variable {tree : FileTree}

theorem entry?_of_ne_nil {key : List String} (hkey : key ≠ []) :
    tree.entry? key = tree.lookup key := by
  unfold entry?
  rw [if_neg (by simpa using hkey)]

theorem ne_nil_of_entry? {key : List String} (hkey : tree.entry? key ≠ some .directory) :
    key ≠ [] := by
  rintro rfl
  exact hkey rfl

theorem lookup_cons (key : List String) (entry : FileEntry) (tree : FileTree)
    (other : List String) :
    List.lookup other ((key, entry) :: tree) =
      if other = key then some entry else tree.lookup other := by
  rw [List.lookup_cons]
  by_cases hother : other = key
  · rw [if_pos hother, beq_iff_eq.mpr hother]
  · rw [if_neg hother, beq_eq_false_iff_ne.mpr hother]

theorem lookup_put (tree : FileTree) (key : List String) (entry : FileEntry)
    (other : List String) :
    (tree.put key entry).lookup other =
      if other = key then some entry else tree.lookup other := by
  induction tree with
  | nil => exact lookup_cons _ _ _ _
  | cons first tree ih =>
      obtain ⟨k, e⟩ := first
      rw [put, lookup_cons]
      by_cases hk : k = key
      · rw [if_pos (beq_iff_eq.mpr hk), lookup_cons, hk]
        by_cases hother : other = key
        · rw [if_pos hother, if_pos hother]
        · simp only [if_neg hother]
      · rw [if_neg (by simpa using hk), lookup_cons, ih]
        by_cases hother : other = key
        · rw [if_pos hother, if_pos hother, if_neg fun heq => hk (heq.symm.trans hother)]
        · rw [if_neg hother, if_neg hother]

theorem entry?_put (tree : FileTree) {key : List String} (hkey : key ≠ []) (entry : FileEntry)
    (other : List String) :
    entry? (tree.put key entry) other =
      if other = key then some entry else tree.entry? other := by
  by_cases hother : other = []
  · rw [hother, if_neg (Ne.symm hkey)]
    rfl
  · rw [entry?_of_ne_nil hother, entry?_of_ne_nil hother, lookup_put]

variable {key : List String} {entry : FileEntry}

theorem entry?_put_of_some (hfree : tree.entry? key = none) {other : List String}
    {old : FileEntry} (hother : tree.entry? other = some old) :
    entry? (tree.put key entry) other = some old := by
  have hkey : key ≠ [] := ne_nil_of_entry? (by rw [hfree]; exact nofun)
  have hne : other ≠ key := by
    rintro rfl
    rw [hfree] at hother
    cases hother
  rw [entry?_put tree hkey, if_neg hne, hother]

theorem directory_of_step {current next : List String} {piece : String}
    (h : tree.step current piece = .ok next) : tree.entry? current = some .directory := by
  unfold step at h
  split at h
  · cases h
  · cases h
  · assumption

theorem step_of_directory {current : List String} {piece : String}
    (hdirectory : tree.entry? current = some .directory) :
    tree.step current piece =
      if piece = "." then .ok current
      else if piece = ".." then .ok current.dropLast
      else if maxNameLength < (utf8 piece).length then .error .nameTooLong
      else if (tree.entry? (current ++ [piece])).isSome then .ok (current ++ [piece])
      else .error .notFound := by
  rw [step, hdirectory]

theorem step_eq_append {current next : List String} {piece : String}
    (h : tree.step current piece = .ok next) (hhere : piece ≠ ".") (hparent : piece ≠ "..") :
    next = current ++ [piece] := by
  rw [step_of_directory (directory_of_step h), if_neg hhere, if_neg hparent] at h
  split at h
  · cases h
  · split at h
    · cases h
      rfl
    · cases h

theorem step_here {current next : List String} (h : tree.step current "." = .ok next) :
    next = current := by
  rw [step_of_directory (directory_of_step h), if_pos rfl] at h
  cases h
  rfl

/-- Every entry of a tree is an entry of another. -/
def Extends (tree next : FileTree) : Prop :=
  ∀ key entry, tree.entry? key = some entry → next.entry? key = some entry

variable {next : FileTree}

theorem Extends.refl (tree : FileTree) : tree.Extends tree := fun _ _ hentry => hentry

theorem Extends.trans {last : FileTree} (h : tree.Extends next) (hlast : next.Extends last) :
    tree.Extends last := fun key entry hentry => hlast key entry (h key entry hentry)

theorem extends_put (hfree : tree.entry? key = none) : tree.Extends (tree.put key entry) :=
  fun _ _ hother => entry?_put_of_some hfree hother

theorem Extends.step {current last : List String} {piece : String} (hextends : tree.Extends next)
    (h : tree.step current piece = .ok last) : next.step current piece = .ok last := by
  have hdirectory := directory_of_step h
  rw [step_of_directory hdirectory] at h
  rw [step_of_directory (hextends _ _ hdirectory)]
  split
  · next hhere => rwa [if_pos hhere] at h
  next hhere =>
  rw [if_neg hhere] at h
  split
  · next hparent => rwa [if_pos hparent] at h
  next hparent =>
  rw [if_neg hparent] at h
  split
  · next hlong => rwa [if_pos hlong] at h
  next hlong =>
  rw [if_neg hlong] at h
  cases hentry : tree.entry? (current ++ [piece]) with
  | none =>
      rw [hentry] at h
      cases h
  | some old =>
      rw [hentry] at h
      rw [hextends _ _ hentry]
      exact h

theorem Extends.walk {current last : List String} {pieces : List String}
    (hextends : tree.Extends next) (h : tree.walk current pieces = .ok last) :
    next.walk current pieces = .ok last := by
  induction pieces generalizing current with
  | nil => exact h
  | cons piece pieces ih =>
      rw [FileTree.walk] at h ⊢
      cases hstep : tree.step current piece with
      | error err =>
          rw [hstep] at h
          cases h
      | ok next =>
          rw [hstep] at h
          rw [hextends.step hstep]
          exact ih h

theorem walk_concat {current last : List String} {pieces : List String} {piece : String} :
    tree.walk current (pieces ++ [piece]) = .ok last ↔
      ∃ parent, tree.walk current pieces = .ok parent ∧ tree.step parent piece = .ok last := by
  induction pieces generalizing current with
  | nil =>
      constructor
      · intro h
        refine ⟨current, rfl, ?_⟩
        rw [List.nil_append, walk] at h
        split at h
        · cases h
        · next next hstep =>
            cases h
            exact hstep
      · rintro ⟨parent, ⟨⟩, hstep⟩
        rw [List.nil_append, walk, hstep]
        rfl
  | cons first pieces ih =>
      rw [List.cons_append, walk, walk]
      cases tree.step current first with
      | error err => simp
      | ok next => exact ih

theorem of_destination {directory : List String} {path : String}
    (h : tree.destination directory path = .ok (.name key)) :
    ∃ parent piece, checkPath path = .ok () ∧ (pathPieces path).2 = false ∧
      (pathPieces path).1.getLast? = some piece ∧ piece ≠ "." ∧ piece ≠ ".." ∧
      ¬ maxNameLength < (utf8 piece).length ∧ tree.entry? parent = some .directory ∧
      tree.walk (origin directory path) (pathPieces path).1.dropLast = .ok parent ∧
      key = parent ++ [piece] := by
  unfold destination at h
  split at h
  · cases h
  next hcheck =>
  simp only at h
  split at h
  · cases h
  next walked hwalk =>
  split at h
  · cases h
  next piece hlast =>
  split at h
  · cases h
  next hdots =>
  split at h
  · cases h
  next hslashed =>
  split at h
  · cases h
  next hlong =>
  obtain ⟨parent, hparent, hstep⟩ := walk_concat.mp hwalk
  cases h
  rw [step_here hstep]
  rw [not_or] at hdots
  exact ⟨parent, piece, hcheck, by simpa using hslashed, hlast, hdots.1, hdots.2, hlong,
    directory_of_step hstep, hparent, rfl⟩

theorem Extends.eq_of_destination {directory located named : List String} {path : String}
    (hextends : tree.Extends next) (hlocate : tree.locate directory path = .ok located)
    (hdestination : next.destination directory path = .ok (.name named)) : named = located := by
  obtain ⟨parent, piece, hcheck, hslashed, hlast, hhere, hup, -, -, hparent, rfl⟩ :=
    of_destination hdestination
  obtain ⟨others, hpieces⟩ := List.getLast?_eq_some_iff.mp hlast
  rw [hpieces, List.dropLast_concat] at hparent
  simp only [locate, hcheck, hslashed, hpieces, Bool.false_eq_true, if_false] at hlocate
  obtain ⟨before, hbefore, hstep⟩ := walk_concat.mp hlocate
  rw [hextends.walk hbefore] at hparent
  cases hparent
  exact (step_eq_append hstep hhere hup).symm

theorem eq_of_destination_put (hfree : tree.entry? key = none)
    {directory located named : List String} {path : String}
    (hlocate : tree.locate directory path = .ok located)
    (hdestination : (tree.put key entry).destination directory path = .ok (.name named)) :
    named = located :=
  (extends_put hfree).eq_of_destination hlocate hdestination

def IsTree (tree : FileTree) : Prop :=
  ∀ key entry, tree.entry? key = some entry → tree.entry? key.dropLast = some .directory

theorem pathPieces_ne_nil {path : String} (hcheck : checkPath path = .ok ())
    (hslashed : (pathPieces path).2 = false) : (pathPieces path).1 ≠ [] := by
  intro hnil
  have hempty : ∀ piece ∈ Path.pieces path.toList, piece = [] := by
    simpa [pathPieces] using hnil
  have hlast : (Path.pieces path.toList).getLast? = some [] := by
    rw [List.getLast?_eq_some_getLast (Path.pieces_ne_nil _)]
    exact congrArg some (hempty _ (List.getLast_mem _))
  have hpath : path = "" := by
    simpa [pathPieces, hlast] using hslashed
  rw [hpath] at hcheck
  cases hcheck

theorem of_step_file {current located : List String} {piece : String} {content : Bytes}
    (htree : tree.IsTree) (h : tree.step current piece = .ok located)
    (hentry : tree.entry? located = some (.file content)) :
    ¬ (piece = "." ∨ piece = "..") ∧ ¬ maxNameLength < (utf8 piece).length ∧
      located = current ++ [piece] := by
  have hdirectory := directory_of_step h
  rw [step_of_directory hdirectory] at h
  split at h
  · cases h
    rw [hdirectory] at hentry
    cases hentry
  split at h
  · cases h
    rw [htree _ _ hdirectory] at hentry
    cases hentry
  next hhere hup =>
  split at h
  · cases h
  next hlong =>
  split at h
  · cases h
    exact ⟨not_or.mpr ⟨hhere, hup⟩, hlong, rfl⟩
  · cases h

/-- A file that a path led to is found again by its name, also if files were added. -/
theorem Extends.destination_eq {directory located : List String} {path : String} {content : Bytes}
    (hextends : tree.Extends next) (htree : tree.IsTree)
    (hlocate : tree.locate directory path = .ok located)
    (hentry : tree.entry? located = some (.file content)) :
    next.destination directory path = .ok (.name located) := by
  unfold locate at hlocate
  split at hlocate
  · cases hlocate
  next hcheck =>
  simp only at hlocate
  have hslashed : (pathPieces path).2 = false := by
    cases hslashed : (pathPieces path).2 with
    | false => rfl
    | true =>
        rw [hslashed, if_pos rfl] at hlocate
        obtain ⟨parent, -, hstep⟩ := walk_concat.mp hlocate
        exact absurd (.inl rfl) (of_step_file htree hstep hentry).1
  rw [hslashed, if_neg Bool.false_ne_true] at hlocate
  obtain ⟨others, piece, hpieces⟩ :=
    (List.eq_nil_or_concat (pathPieces path).1).resolve_left (pathPieces_ne_nil hcheck hslashed)
  rw [List.concat_eq_append] at hpieces
  rw [hpieces] at hlocate
  obtain ⟨parent, hparent, hstep⟩ := walk_concat.mp hlocate
  obtain ⟨hdots, hlong, rfl⟩ := of_step_file htree hstep hentry
  have hhere : next.step parent "." = .ok parent :=
    (step_of_directory (hextends _ _ (directory_of_step hstep))).trans (if_pos rfl)
  have hwalk : next.walk (origin directory path) (others ++ ["."]) = .ok parent :=
    walk_concat.mpr ⟨parent, hextends.walk hparent, hhere⟩
  simp only [destination, hcheck, hslashed, hpieces, List.dropLast_concat, hwalk,
    List.getLast?_concat, if_neg hdots, if_neg hlong, Bool.false_eq_true, if_false]

theorem of_read_ok {directory : List String} {path : String} {content : Bytes}
    (h : tree.read directory path = .ok content) :
    ∃ located, tree.locate directory path = .ok located ∧
      tree.entry? located = some (.file content) := by
  unfold read at h
  split at h
  · cases h
  next located hlocate =>
  split at h
  · next hentry =>
      cases h
      exact ⟨located, hlocate, hentry⟩
  · cases h
  · cases h

theorem of_freeKey_ok {directory named : List String} {path : String}
    (h : tree.freeKey directory path = .ok named) :
    tree.destination directory path = .ok (.name named) ∧ tree.entry? named = none := by
  unfold freeKey at h
  split at h
  · cases h
  · cases h
  · cases h
  next hdestination =>
  split at h
  · cases h
  next hfree =>
  cases h
  exact ⟨hdestination, by simpa using hfree⟩

theorem of_create_ok {directory : List String} {path : String} {content : Bytes}
    {next : FileTree} (h : tree.create directory path content = .ok next) :
    ∃ named, tree.destination directory path = .ok (.name named) ∧ tree.entry? named = none ∧
      next = tree.put named (.file content) := by
  unfold create at h
  cases hkey : tree.freeKey directory path with
  | error err =>
      rw [hkey] at h
      cases h
  | ok named =>
      rw [hkey] at h
      cases h
      obtain ⟨hdestination, hfree⟩ := of_freeKey_ok hkey
      exact ⟨named, hdestination, hfree, rfl⟩

/-! A file that was added is found by its path, and is gone once it is deleted. -/

theorem put_put (tree : FileTree) (key : List String) (first second : FileEntry) :
    put key second (tree.put key first) = tree.put key second := by
  induction tree with
  | nil => simp [put]
  | cons old tree ih =>
      obtain ⟨k, e⟩ := old
      rw [put, put]
      by_cases hk : k = key
      · simp [hk, put]
      · have hbeq : (k == key) = false := beq_eq_false_iff_ne.mpr hk
        simp [hbeq, put, ih]

theorem put_of_lookup_eq_none (hnone : tree.lookup key = none) :
    tree.put key entry = tree ++ [(key, entry)] := by
  induction tree with
  | nil => rfl
  | cons old tree ih =>
      obtain ⟨k, e⟩ := old
      rw [lookup_cons] at hnone
      split at hnone
      · cases hnone
      next hk =>
      have hbeq : (k == key) = false := beq_eq_false_iff_ne.mpr (Ne.symm hk)
      rw [put, hbeq, if_neg Bool.false_ne_true, ih hnone]
      rfl

theorem locate_put {directory : List String} {path : String}
    (h : tree.freeKey directory path = .ok key) :
    (tree.put key entry).locate directory path = .ok key := by
  obtain ⟨hdestination, hfree⟩ := of_freeKey_ok h
  have hne : key ≠ [] := ne_nil_of_entry? (by rw [hfree]; exact nofun)
  obtain ⟨parent, piece, hcheck, hslashed, hlast, hhere, hup, hlong, hdirectory, hparent, rfl⟩ :=
    of_destination hdestination
  obtain ⟨others, hpieces⟩ := List.getLast?_eq_some_iff.mp hlast
  rw [hpieces, List.dropLast_concat] at hparent
  have hextends := @extends_put tree _ entry hfree
  have hadded : entry? (tree.put (parent ++ [piece]) entry) (parent ++ [piece]) = some entry := by
    rw [entry?_put tree hne, if_pos rfl]
  have hstep : step (tree.put (parent ++ [piece]) entry) parent piece =
      .ok (parent ++ [piece]) := by
    rw [step_of_directory (hextends _ _ hdirectory), if_neg hhere, if_neg hup, if_neg hlong, hadded]
    rfl
  simp only [locate, hcheck, hslashed, hpieces, Bool.false_eq_true, if_false]
  exact walk_concat.mpr ⟨parent, hextends.walk hparent, hstep⟩

theorem delete_put {directory : List String} {path : String}
    (h : tree.freeKey directory path = .ok key) (content : Bytes) :
    (tree.put key (.file content)).delete directory path = .ok tree := by
  obtain ⟨-, hfree⟩ := of_freeKey_ok h
  have hne : key ≠ [] := ne_nil_of_entry? (by rw [hfree]; exact nofun)
  have hnone : tree.lookup key = none := by rwa [← entry?_of_ne_nil hne]
  have hothers : ∀ other ∈ tree, (other.1 != key) = true := fun other hmem =>
    bne_comm.trans (List.lookup_eq_none_iff.mp hnone other hmem)
  have hadded : entry? (tree.put key (.file content)) key = some (.file content) := by
    rw [entry?_put tree hne, if_pos rfl]
  rw [delete, locate_put h]
  simp only [hadded]
  rw [put_of_lookup_eq_none hnone, List.filter_append, List.filter_eq_self.mpr hothers]
  simp

theorem of_write_ok {directory : List String} {path : String} {content : Bytes}
    {next : FileTree} (h : tree.write directory path content = .ok next) :
    ∃ named, tree.destination directory path = .ok (.name named) ∧
      next = tree.put named (.file content) := by
  unfold write at h
  split at h
  · cases h
  · cases h
  · cases h
  next named hdestination =>
  split at h
  · cases h
  cases h
  exact ⟨named, hdestination, rfl⟩

theorem Extends.write_eq {directory located : List String} {path : String} {old : Bytes}
    (hextends : tree.Extends next) (htree : tree.IsTree)
    (hlocate : tree.locate directory path = .ok located)
    (hentry : tree.entry? located = some (.file old)) (content : Bytes) :
    next.write directory path content = .ok (next.put located (.file content)) := by
  rw [write, hextends.destination_eq htree hlocate hentry]
  simp only [hextends _ _ hentry]

theorem isTree_of_forall
    (h : ∀ file ∈ tree, tree.entry? file.1.dropLast = some .directory) : tree.IsTree := by
  intro key entry hentry
  cases key with
  | nil => rfl
  | cons piece key =>
      rw [entry?_of_ne_nil (List.cons_ne_nil _ _)] at hentry
      obtain ⟨before, later, hsplit, -⟩ := List.lookup_eq_some_iff.mp hentry
      refine h (piece :: key, entry) ?_
      rw [hsplit]
      exact List.mem_append_right _ List.mem_cons_self

end FileTree

end Extraction
