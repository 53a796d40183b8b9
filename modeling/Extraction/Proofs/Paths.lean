import Mathlib.Data.List.Basic
import Extraction.Path
/-!
Taking a path apart and putting it together again. A name that is joined to the parent of a path
has that parent, spelled as before, and is one more component of it.
-/

namespace Extraction.Path

theorem pieces_cons (c : Char) (rest : List Char) :
    ∃ piece more, pieces rest = piece :: more ∧
      pieces (c :: rest) = if c = '/' then [] :: piece :: more else (c :: piece) :: more := by
  induction rest generalizing c with
  | nil =>
      refine ⟨[], [], rfl, ?_⟩
      by_cases hslash : c = '/'
      · subst hslash
        rfl
      · rw [pieces.eq_3 _ _ hslash, if_neg hslash]
        rfl
  | cons d rest ih =>
      obtain ⟨piece, more, -, hpieces⟩ := ih d
      obtain ⟨first, others, hcons⟩ : ∃ first others, pieces (d :: rest) = first :: others := by
        rw [hpieces]
        split
        · exact ⟨_, _, rfl⟩
        · exact ⟨_, _, rfl⟩
      refine ⟨first, others, hcons, ?_⟩
      by_cases hslash : c = '/'
      · subst hslash
        rw [pieces, hcons, if_pos rfl]
      · rw [pieces.eq_3 _ _ hslash, hcons, if_neg hslash]

theorem pieces_ne_nil (cs : List Char) : pieces cs ≠ [] := by
  cases cs with
  | nil => exact List.cons_ne_nil _ _
  | cons c cs =>
      obtain ⟨piece, more, -, hpieces⟩ := pieces_cons c cs
      rw [hpieces]
      split
      · exact List.cons_ne_nil _ _
      · exact List.cons_ne_nil _ _

theorem pieces_eq_splitOn (cs : List Char) : pieces cs = cs.splitOn '/' := by
  induction cs with
  | nil => rfl
  | cons c rest ih =>
      obtain ⟨piece, more, hrest, hcons⟩ := pieces_cons c rest
      rw [hcons, List.splitOn_cons_eq_if_modifyHead, ← ih, hrest]
      simp

theorem slash_not_mem_of_mem_pieces {cs piece : List Char} (hmem : piece ∈ pieces cs) :
    '/' ∉ piece := by
  induction cs generalizing piece with
  | nil =>
      obtain rfl := List.mem_singleton.mp hmem
      exact List.not_mem_nil
  | cons c rest ih =>
      obtain ⟨first, more, hrest, hcons⟩ := pieces_cons c rest
      rw [hrest] at ih
      rw [hcons] at hmem
      split at hmem
      · rcases List.mem_cons.mp hmem with rfl | hmem
        · exact List.not_mem_nil
        · exact ih hmem
      · next hslash =>
          rcases List.mem_cons.mp hmem with rfl | hmem
          · rw [List.mem_cons, not_or]
            exact ⟨Ne.symm hslash, ih List.mem_cons_self⟩
          · exact ih (List.mem_cons_of_mem _ hmem)

theorem pieces_intercalate {body : List (List Char)} (hslash : ∀ piece ∈ body, '/' ∉ piece)
    (hbody : body ≠ []) : pieces (['/'].intercalate body) = body := by
  rw [pieces_eq_splitOn]
  exact List.splitOn_intercalate '/' hslash hbody

theorem intercalate_pieces (cs : List Char) : ['/'].intercalate (pieces cs) = cs := by
  rw [pieces_eq_splitOn]
  exact List.intercalate_splitOn '/'

theorem intercalate_concat {body : List (List Char)} (hbody : body ≠ []) (piece : List Char) :
    ['/'].intercalate (body ++ [piece]) = ['/'].intercalate body ++ '/' :: piece := by
  induction body with
  | nil => exact absurd rfl hbody
  | cons first body ih =>
      cases body with
      | nil => simp [List.intercalate_cons_cons]
      | cons second body =>
          rw [List.cons_append, List.cons_append, List.intercalate_cons_cons,
            List.intercalate_cons_cons, ← List.cons_append, ih (List.cons_ne_nil _ _)]
          simp

structure Spelled (head : List Char) (body : List (List Char)) : Prop where
  body_ne : body ≠ []
  slash_free : ∀ piece ∈ body, '/' ∉ piece
  heads : head = ['/'] ∨ head = ['.'] ∧ body.head? = some [] ∨
    head = [] ∧ (body = [[]] ∨ ∃ first, body.head? = some first ∧ first ≠ [] ∧ first ≠ ['.'])

theorem spelled_split (path : String) : Spelled (split path).1 (split path).2 := by
  have hfree : ∀ cs, ∀ piece ∈ pieces cs, '/' ∉ piece :=
    fun _ _ => slash_not_mem_of_mem_pieces
  have hne : ∀ cs, pieces cs ≠ [] := by
    intro cs
    rw [pieces_eq_splitOn]
    exact List.splitOn_ne_nil _ _
  rw [split]
  split
  · exact ⟨hne _, hfree _, .inl rfl⟩
  · exact ⟨by simp, by simp, .inr (.inl ⟨rfl, rfl⟩)⟩
  · exact ⟨hne _, hfree _, .inr (.inl ⟨rfl, rfl⟩)⟩
  · next hroot hdot hhere =>
      refine ⟨hne _, hfree _, .inr (.inr ⟨rfl, ?_⟩)⟩
      have hwhole := intercalate_pieces path.toList
      cases hpath : path.toList with
      | nil => exact .inl rfl
      | cons c rest =>
          obtain ⟨piece, more, hrest, hcons⟩ := pieces_cons c rest
          have hslash : c ≠ '/' := fun h => hroot rest (by rw [hpath, h])
          rw [if_neg hslash] at hcons
          rw [hpath, hcons] at hwhole
          refine .inr ⟨c :: piece, by rw [hcons]; rfl, List.cons_ne_nil _ _, fun hfirst => ?_⟩
          rw [hfirst] at hwhole
          cases more with
          | nil => exact hdot (hpath.trans hwhole.symm)
          | cons second more =>
              rw [List.intercalate_cons_cons] at hwhole
              exact hhere _ (hpath.trans hwhole.symm)

theorem split_unsplit {head : List Char} {body : List (List Char)} (h : Spelled head body) :
    split (unsplit head body) = (head, body) := by
  have hpieces := pieces_intercalate h.slash_free h.body_ne
  rcases h.heads with rfl | ⟨rfl, hfirst⟩ | ⟨rfl, rfl | ⟨first, hfirst, hne, hdot⟩⟩
  · rw [split, unsplit, String.toList_ofList]
    exact congrArg _ hpieces
  · obtain ⟨more, rfl⟩ := List.head?_eq_some_iff.mp hfirst
    rw [split, unsplit, String.toList_ofList]
    cases more with
    | nil => rfl
    | cons second more =>
        rw [List.intercalate_cons_cons] at hpieces ⊢
        exact congrArg _ hpieces
  · rfl
  · obtain ⟨more, rfl⟩ := List.head?_eq_some_iff.mp hfirst
    obtain ⟨tail, htail⟩ : ∃ tail, ['/'].intercalate (first :: more) = first ++ tail := by
      cases more with
      | nil => exact ⟨[], by simp⟩
      | cons second more => exact ⟨_, by rw [List.intercalate_cons_cons, List.append_assoc]⟩
    have hslash := h.slash_free first List.mem_cons_self
    cases first with
    | nil => exact absurd rfl hne
    | cons c first =>
        rw [List.mem_cons, not_or] at hslash
        rw [split, unsplit, String.toList_ofList, List.nil_append]
        split
        · next hroot =>
            rw [htail] at hroot
            exact absurd (List.cons.inj hroot).1.symm hslash.1
        · next hhere =>
            rw [htail] at hhere
            obtain ⟨rfl, hrest⟩ := List.cons.inj hhere
            obtain ⟨rfl, -⟩ := List.append_eq_nil_iff.mp hrest
            exact absurd rfl hdot
        · next hhere =>
            rw [htail] at hhere
            obtain ⟨rfl, hrest⟩ := List.cons.inj hhere
            cases first with
            | nil => exact absurd rfl hdot
            | cons d first =>
                obtain ⟨rfl, -⟩ := List.cons.inj hrest
                exact absurd List.mem_cons_self hslash.2
        · rw [hpieces]

theorem Spelled.initial {head : List Char} {body other : List (List Char)}
    (h : Spelled head body) (hother : other <+: body) (hne : other ≠ []) : Spelled head other := by
  obtain ⟨rest, rfl⟩ := hother
  obtain ⟨first, more, rfl⟩ := List.exists_cons_of_ne_nil hne
  refine ⟨hne, fun piece hmem => h.slash_free piece (List.mem_append_left _ hmem), ?_⟩
  refine h.heads.imp_right (.imp_right (.imp_right (.imp_left fun hbody => ?_)))
  obtain ⟨rfl, hrest⟩ := List.cons.inj hbody
  rw [(List.append_eq_nil_iff.mp hrest).1]

theorem Spelled.concat {head : List Char} {body : List (List Char)} {piece : List Char}
    (h : Spelled head body) (hbody : head = [] → body ≠ [[]]) (hpiece : '/' ∉ piece) :
    Spelled head (body ++ [piece]) := by
  obtain ⟨first, more, rfl⟩ := List.exists_cons_of_ne_nil h.body_ne
  refine ⟨by simp, ?_, ?_⟩
  · intro other hmem
    rcases List.mem_append.mp hmem with hmem | hmem
    · exact h.slash_free other hmem
    · rwa [List.mem_singleton.mp hmem]
  · refine h.heads.imp_right (.imp_right fun ⟨hhead, hfirst⟩ => ⟨hhead, .inr ?_⟩)
    exact hfirst.resolve_left (hbody hhead)

structure IsName (name : String) : Prop where
  slash : '/' ∉ name.toList
  proper : isProper name.toList = true
  not_parent : name.toList ≠ ['.', '.']

theorem parent?_of_split {path : String} {head : List Char} {body : List (List Char)}
    {piece : List Char} (hsplit : split path = (head, body ++ [piece]))
    (hpiece : isProper piece = true) :
    parent? path = some (unsplit head (body.reverse.dropWhile (!isProper ·)).reverse) := by
  rw [parent?, hsplit]
  simp [hpiece]

theorem IsName.toList_ne_nil {name : String} (hname : IsName name) : name.toList ≠ [] := by
  intro hnil
  have hproper := hname.proper
  rw [hnil] at hproper
  cases hproper

theorem IsName.isAbsolute {name : String} (hname : IsName name) : isAbsolute name = false := by
  rw [Path.isAbsolute, beq_eq_false_iff_ne]
  intro hhead
  exact hname.slash (List.mem_of_mem_head? hhead)

/-- A directory: a name joined to it has it as its parent, and is one more component of it. -/
def Hosts (directory : String) : Prop :=
  ∀ name, IsName name → parent? (join directory name) = some directory ∧
    components (join directory name) = components directory ++ [.name name]

theorem Hosts.of_split {directory : String} {head : List Char} {before body : List (List Char)}
    (hdirectory : split directory = (head, before))
    (hjoin : ∀ name, IsName name → split (join directory name) = (head, body ++ [name.toList]))
    (hproper : before.filter isProper = body.filter isProper)
    (hspelled : unsplit head (body.reverse.dropWhile (!isProper ·)).reverse = directory) :
    Hosts directory := by
  intro name hname
  have hsplit := hjoin name hname
  constructor
  · rw [parent?_of_split hsplit hname.proper, hspelled]
  · rw [components, components, hsplit, hdirectory]
    simp [hproper, hname.proper, hname.not_parent]

theorem join_of_ne_slash {directory name : String} {c : Char} (hname : IsName name)
    (hlast : directory.toList.getLast? = some c) (hc : c ≠ '/') :
    join directory name = directory ++ "/" ++ name := by
  rw [join, hname.isAbsolute, hlast]
  simp only [Bool.false_eq_true, if_false]

theorem hosts_empty : Hosts "" := by
  refine @Hosts.of_split "" [] [[]] [] (by decide) (fun name hname => ?_) rfl rfl
  have hdot : name.toList ≠ ['.'] := by
    intro hdot
    have hproper := hname.proper
    rw [hdot] at hproper
    cases hproper
  have hjoin : join "" name = unsplit [] [name.toList] := by
    rw [join, hname.isAbsolute]
    simp [unsplit]
  rw [hjoin]
  exact split_unsplit ⟨by simp, by simpa using hname.slash,
    .inr (.inr ⟨rfl, .inr ⟨_, rfl, hname.toList_ne_nil, hdot⟩⟩)⟩

theorem hosts_root : Hosts "/" := by
  refine @Hosts.of_split "/" ['/'] [[]] [] (by decide) (fun name hname => ?_) rfl rfl
  have hjoin : join "/" name = unsplit ['/'] [name.toList] := by
    rw [join, hname.isAbsolute, ← String.toList_inj]
    simp [unsplit]
  rw [hjoin]
  exact split_unsplit ⟨by simp, by simpa using hname.slash, .inl rfl⟩

theorem hosts_here : Hosts "." := by
  refine @Hosts.of_split "." ['.'] [[]] [[]] (by decide) (fun name hname => ?_) rfl rfl
  have hjoin : join "." name = unsplit ['.'] [[], name.toList] := by
    rw [join_of_ne_slash hname (show _ = some '.' from rfl) (by decide), ← String.toList_inj]
    simp [unsplit, List.intercalate_cons_cons]
  rw [hjoin]
  exact split_unsplit ⟨by simp, by simpa using hname.slash, .inr (.inl ⟨rfl, rfl⟩)⟩

theorem hosts_spelled {head : List Char} {before : List (List Char)} {last : List Char}
    (hspelled : Spelled head (before ++ [last])) (hlast : isProper last = true) :
    Hosts (unsplit head (before ++ [last])) := by
  refine Hosts.of_split (split_unsplit hspelled) (fun name hname => ?_) rfl ?_
  · have hne : last ≠ [] := by
      rintro rfl
      cases hlast
    obtain ⟨init, c, hend⟩ := List.eq_nil_or_concat last |>.resolve_left hne
    obtain ⟨lead, hwhole⟩ : ∃ lead, (unsplit head (before ++ [last])).toList = lead ++ last := by
      rw [unsplit, String.toList_ofList]
      cases before with
      | nil => exact ⟨head, by simp⟩
      | cons first before =>
          rw [intercalate_concat (List.cons_ne_nil _ _)]
          exact ⟨head ++ (['/'].intercalate (first :: before) ++ ['/']), by simp⟩
    have hslash := hspelled.slash_free last (by simp)
    have hjoin : join (unsplit head (before ++ [last])) name =
        unsplit head (before ++ [last] ++ [name.toList]) := by
      rw [@join_of_ne_slash _ name c hname, ← String.toList_inj]
      · simp only [unsplit, intercalate_concat hspelled.body_ne]
        simp
      · rw [hwhole, hend]
        simp
      · rintro rfl
        exact hslash (by simp [hend])
    rw [hjoin]
    refine split_unsplit (hspelled.concat ?_ hname.slash)
    rintro - hnil
    have hlength := congrArg List.length hnil
    cases before with
    | nil => exact hne (List.singleton_inj.mp hnil)
    | cons first before => simp at hlength
  · simp [hlast]

theorem hosts_parent (path : String) : Hosts ((parent? path).getD "") := by
  have hspelled := spelled_split path
  rw [parent?]
  generalize split path = halves at hspelled
  obtain ⟨head, body⟩ := halves
  have hsuffix : body.reverse.dropWhile (!isProper ·) <:+ body.reverse :=
    List.dropWhile_suffix _
  simp only
  split
  · next first before hbody =>
      have hrest : before.dropWhile (!isProper ·) <:+ body.reverse :=
        (List.dropWhile_suffix _).trans ((List.suffix_cons first before).trans (hbody ▸ hsuffix))
      have hproper := List.head?_dropWhile_not (!isProper ·) before
      cases hdrop : before.dropWhile (!isProper ·) with
      | nil =>
          rcases hspelled.heads with rfl | ⟨rfl, -⟩ | ⟨rfl, -⟩
          · exact hosts_root
          · exact hosts_here
          · exact hosts_empty
      | cons last more =>
          rw [hdrop] at hrest hproper
          have hinitial : more.reverse ++ [last] <+: body := by
            have hreverse := List.reverse_prefix.mpr hrest
            rwa [List.reverse_cons, List.reverse_reverse] at hreverse
          rw [List.reverse_cons]
          exact hosts_spelled (hspelled.initial hinitial (by simp)) (by simpa using hproper)
  · split
    · exact hosts_empty
    · exact hosts_empty

end Extraction.Path
