import Extraction.Source.Rewire
/-!
Brackets in a code view: the depth that a walk through the view counts, and proper nesting, in
which every bracket is closed by the bracket of its own kind. A nested view has depth zero for
every way of counting, but not conversely.
-/

namespace Extraction

open Byte

def Byte.Pairs (opener closer : UInt8) : Prop :=
  opener = openParen ∧ closer = closeParen ∨ opener = openBracket ∧ closer = closeBracket ∨
    opener = openBrace ∧ closer = closeBrace

namespace CodeView

/-- Counts brackets from a depth on; `none` if one is closed that was open before the view. -/
def depth? (opens closes : UInt8 → Bool) : Nat → CodeView → Option Nat
  | depth, [] => some depth
  | depth, none :: rest => depth? opens closes depth rest
  | depth, some b :: rest =>
      if opens b then depth? opens closes (depth + 1) rest
      else if closes b then
        match depth with
        | 0 => none
        | depth + 1 => depth? opens closes depth rest
      else depth? opens closes depth rest

abbrev blockDepth? : Nat → CodeView → Option Nat :=
  depth? isOpener isCloser

abbrev listDepth? : Nat → CodeView → Option Nat :=
  depth? (· == openBracket) (· == closeBracket)

variable {opens closes : UInt8 → Bool}

theorem exists_of_depth?_single {depth : Nat} {code : Option UInt8}
    (h : depth? opens closes depth [code] = none) :
    ∃ b, code = some b ∧ depth = 0 ∧ opens b = false ∧ closes b = true := by
  cases code with
  | none => cases h
  | some b =>
      simp only [depth?] at h
      split at h
      · cases h
      · next hopens =>
          split at h
          · next hcloses =>
              cases depth with
              | zero => exact ⟨b, rfl, rfl, eq_false_of_ne_true hopens, hcloses⟩
              | succ depth => cases h
          · cases h

theorem depth?_append (depth : Nat) (left right : CodeView) :
    depth? opens closes depth (left ++ right) =
      (depth? opens closes depth left).bind (depth? opens closes · right) := by
  induction left generalizing depth with
  | nil => rfl
  | cons code left ih =>
      cases code with
      | none => simpa [depth?] using ih depth
      | some b =>
          simp only [List.cons_append, depth?]
          split
          · exact ih (depth + 1)
          · split
            · cases depth with
              | zero => rfl
              | succ depth => exact ih depth
            · exact ih depth

theorem depth?_append_of_eq {depth middle : Nat} {left right : CodeView}
    (hleft : depth? opens closes depth left = some middle) :
    depth? opens closes depth (left ++ right) = depth? opens closes middle right := by
  rw [depth?_append, hleft, Option.bind_some]

theorem exists_depth?_of_append {depth stop : Nat} {left right : CodeView}
    (h : depth? opens closes depth (left ++ right) = some stop) :
    ∃ middle, depth? opens closes depth left = some middle ∧
      depth? opens closes middle right = some stop := by
  rw [depth?_append, Option.bind_eq_some_iff] at h
  exact h

theorem exists_depth?_of_cons {depth stop : Nat} {code : Option UInt8} {view : CodeView}
    (h : depth? opens closes depth (code :: view) = some stop) :
    ∃ next, depth? opens closes depth [code] = some next ∧
      depth? opens closes next view = some stop :=
  exists_depth?_of_append h

theorem depth?_add {depth stop : Nat} {view : CodeView} (extra : Nat)
    (h : depth? opens closes depth view = some stop) :
    depth? opens closes (depth + extra) view = some (stop + extra) := by
  induction view generalizing depth with
  | nil => simpa [depth?] using h
  | cons code view ih =>
      cases code with
      | none => exact ih h
      | some b =>
          simp only [depth?] at h ⊢
          split
          · next hopens =>
              rw [if_pos hopens] at h
              simpa [Nat.add_right_comm] using ih h
          · next hopens =>
              rw [if_neg hopens] at h
              split
              · next hcloses =>
                  rw [if_pos hcloses] at h
                  cases depth with
                  | zero => cases h
                  | succ depth => simpa [Nat.succ_add] using ih h
              · next hcloses =>
                  rw [if_neg hcloses] at h
                  exact ih h

theorem depth?_of_forall {depth : Nat} {view : CodeView}
    (hview : ∀ b, some b ∈ view → opens b = false ∧ closes b = false) :
    depth? opens closes depth view = some depth := by
  induction view with
  | nil => rfl
  | cons code view ih =>
      have hrest := ih fun b hb => hview b (List.mem_cons_of_mem _ hb)
      cases code with
      | none => exact hrest
      | some b =>
          obtain ⟨hopens, hcloses⟩ := hview b List.mem_cons_self
          simpa [depth?, hopens, hcloses] using hrest

/-- A view whose brackets are properly nested. -/
inductive Nested : CodeView → Prop
  | nil : Nested []
  | skip {code : Option UInt8} {rest : CodeView}
      (hcode : ∀ b, code = some b → isOpener b = false ∧ isCloser b = false)
      (hrest : Nested rest) : Nested (code :: rest)
  | wrap {opener closer : UInt8} {inner rest : CodeView} (hpairs : Pairs opener closer)
      (hinner : Nested inner) (hrest : Nested rest) :
      Nested (some opener :: inner ++ some closer :: rest)

theorem Nested.depth?_eq {view : CodeView} (hnested : Nested view)
    (hskip : ∀ b, isOpener b = false → isCloser b = false → opens b = false ∧ closes b = false)
    (hpair : ∀ opener closer, Pairs opener closer →
      opens opener = true ∧ opens closer = false ∧ closes closer = true ∨
        opens opener = false ∧ closes opener = false ∧
          opens closer = false ∧ closes closer = false)
    (depth : Nat) : depth? opens closes depth view = some depth := by
  induction hnested generalizing depth with
  | nil => rfl
  | @skip code rest hcode hrest ih =>
      cases code with
      | none => exact ih depth
      | some b =>
          obtain ⟨hopens, hcloses⟩ := hskip b (hcode b rfl).1 (hcode b rfl).2
          simpa [depth?, hopens, hcloses] using ih depth
  | @wrap opener closer inner rest hpairs hinner hrest ihInner ihRest =>
      rw [List.cons_append]
      rcases hpair opener closer hpairs with ⟨hopens, hneither, hcloses⟩ | hneither
      · simp only [depth?, hopens, if_true]
        rw [depth?_append_of_eq (ihInner (depth + 1))]
        simpa [depth?, hneither, hcloses] using ihRest depth
      · simp only [depth?, hneither, Bool.false_eq_true, if_false]
        rw [depth?_append_of_eq (ihInner depth)]
        simpa [depth?, hneither] using ihRest depth

theorem Nested.blockDepth?_eq {view : CodeView} (hnested : Nested view) (depth : Nat) :
    blockDepth? depth view = some depth := by
  refine hnested.depth?_eq (fun _ hopens hcloses => ⟨hopens, hcloses⟩) ?_ depth
  rintro _ _ (⟨rfl, rfl⟩ | ⟨rfl, rfl⟩ | ⟨rfl, rfl⟩) <;> decide

theorem Nested.listDepth?_eq {view : CodeView} (hnested : Nested view) (depth : Nat) :
    listDepth? depth view = some depth := by
  refine hnested.depth?_eq ?_ ?_ depth
  · intro b hopens hcloses
    simp_all [isOpener, isCloser]
  · rintro _ _ (⟨rfl, rfl⟩ | ⟨rfl, rfl⟩ | ⟨rfl, rfl⟩) <;> decide

/-! Positions in a nested view: a bracket opened before a position and closed after it encloses
the position, and there is one exactly where the depth is positive. -/

theorem not_isOpener_of_pairs {opener closer : UInt8} (hpairs : Pairs opener closer) :
    isOpener opener = true ∧ isOpener closer = false ∧ isCloser closer = true := by
  rcases hpairs with ⟨rfl, rfl⟩ | ⟨rfl, rfl⟩ | ⟨rfl, rfl⟩ <;> decide

theorem depth_pos_of_opener {left inner : CodeView} {opener : UInt8} {depth extra : Nat}
    (hopener : isOpener opener = true) (hinner : blockDepth? 0 inner = some extra)
    (h : blockDepth? 0 (left ++ some opener :: inner) = some depth) : 0 < depth := by
  obtain ⟨before, -, hafter⟩ := exists_depth?_of_append h
  simp only [depth?, hopener, if_true] at hafter
  have hadd := depth?_add (before + 1) hinner
  rw [Nat.zero_add, hafter] at hadd
  have := Option.some.inj hadd
  omega

/-- A bracket opened at depth zero of a nested view is closed by its kind, with nested views on
both sides of the closing bracket. -/
theorem Nested.exists_closer {view left right : CodeView} {opener : UInt8}
    (hnested : Nested view) (hview : view = left ++ some opener :: right)
    (hleft : blockDepth? 0 left = some 0) (hopener : isOpener opener = true) :
    ∃ closer inner rest, Pairs opener closer ∧ right = inner ++ some closer :: rest ∧
      Nested inner ∧ Nested rest := by
  induction hnested generalizing left right with
  | nil => simp at hview
  | @skip code rest hcode hrest ih =>
      cases left with
      | nil =>
          obtain ⟨rfl, rfl⟩ := List.cons.inj hview
          simp [(hcode opener rfl).1] at hopener
      | cons head left =>
          obtain ⟨rfl, rfl⟩ := List.cons.inj hview
          have hhead : blockDepth? 0 [code] = some 0 :=
            depth?_of_forall fun b hb => hcode b (List.mem_singleton.mp hb).symm
          exact ih rfl ((depth?_append_of_eq hhead).symm.trans hleft)
  | @wrap first closer inner rest hpairs hinner hrest ihInner ihRest =>
      obtain ⟨hfirst, hcloserOpens, hcloser⟩ := not_isOpener_of_pairs hpairs
      cases left with
      | nil =>
          obtain ⟨hhead, rfl⟩ := List.cons.inj hview
          obtain rfl := Option.some.inj hhead
          exact ⟨closer, inner, rest, hpairs, rfl, hinner, hrest⟩
      | cons head left =>
          obtain ⟨rfl, htail⟩ := List.cons.inj hview
          simp only [depth?, hfirst, if_true] at hleft
          rcases List.append_eq_append_iff.mp htail with ⟨more, rfl, hmore⟩ | ⟨more, rfl, hmore⟩
          · rw [depth?_append_of_eq (hinner.blockDepth?_eq 1)] at hleft
            cases more with
            | nil =>
                obtain ⟨hhead, -⟩ := List.cons.inj hmore
                obtain rfl := Option.some.inj hhead
                simp [hcloserOpens] at hopener
            | cons head more =>
                obtain ⟨rfl, rfl⟩ := List.cons.inj hmore
                exact ihRest rfl (by simpa [depth?, hcloserOpens, hcloser] using hleft)
          · obtain ⟨extra, hextra, -⟩ := exists_depth?_of_append (hinner.blockDepth?_eq 0)
            have hadd := depth?_add 1 hextra
            rw [Nat.zero_add, hleft] at hadd
            simp at hadd

theorem Nested.exists_enclosing {view left right : CodeView} {depth : Nat}
    (hnested : Nested view) (hview : view = left ++ right)
    (hleft : blockDepth? 0 left = some (depth + 1)) :
    ∃ before opener first second closer after, Pairs opener closer ∧
      left = before ++ some opener :: first ∧ right = second ++ some closer :: after ∧
      Nested (first ++ second) := by
  induction hnested generalizing left right with
  | nil =>
      obtain ⟨rfl, -⟩ := List.append_eq_nil_iff.mp hview.symm
      simp [depth?] at hleft
  | @skip code rest hcode hrest ih =>
      cases left with
      | nil => simp [depth?] at hleft
      | cons head left =>
          obtain ⟨rfl, rfl⟩ := List.cons.inj hview
          have hhead : blockDepth? 0 [code] = some 0 :=
            depth?_of_forall fun b hb => hcode b (List.mem_singleton.mp hb).symm
          obtain ⟨before, opener, first, second, closer, after, hpairs, rfl, hright, hinner⟩ :=
            ih rfl ((depth?_append_of_eq hhead).symm.trans hleft)
          exact ⟨code :: before, opener, first, second, closer, after, hpairs, rfl, hright,
            hinner⟩
  | @wrap opener closer inner rest hpairs hinner hrest ihInner ihRest =>
      obtain ⟨hopener, hcloserOpens, hcloser⟩ := not_isOpener_of_pairs hpairs
      cases left with
      | nil => simp [depth?] at hleft
      | cons head left =>
          obtain ⟨rfl, htail⟩ := List.cons.inj hview
          rcases List.append_eq_append_iff.mp htail with ⟨more, rfl, hmore⟩ | ⟨more, rfl, hmore⟩
          · cases more with
            | nil =>
                exact ⟨[], opener, inner, [], closer, rest, hpairs, by simp, hmore.symm,
                  by simpa using hinner⟩
            | cons head more =>
                obtain ⟨rfl, rfl⟩ := List.cons.inj hmore
                simp only [depth?, hopener, if_true] at hleft
                rw [depth?_append_of_eq (hinner.blockDepth?_eq 1)] at hleft
                obtain ⟨before, opener', first, second, closer', after, hpairs', rfl, hright,
                    hinner'⟩ :=
                  ihRest rfl (by simpa [depth?, hcloserOpens, hcloser] using hleft)
                exact ⟨some opener :: inner ++ some closer :: before, opener', first, second,
                  closer', after, hpairs', by simp, hright, hinner'⟩
          · exact ⟨[], opener, left, more, closer, rest, hpairs, rfl, hmore, hinner⟩

/-! Nesting is decided with a stack of the brackets that are still to be closed. -/

def closerOf (opener : UInt8) : UInt8 :=
  if opener = openParen then closeParen
  else if opener = openBracket then closeBracket
  else closeBrace

theorem pairs_iff {opener closer : UInt8} :
    Pairs opener closer ↔ isOpener opener = true ∧ closer = closerOf opener := by
  unfold Pairs
  constructor
  · rintro (⟨rfl, rfl⟩ | ⟨rfl, rfl⟩ | ⟨rfl, rfl⟩) <;> decide
  · rintro ⟨hopener, rfl⟩
    simp only [isOpener, Bool.or_eq_true, beq_iff_eq] at hopener
    rcases hopener with (rfl | rfl) | rfl <;> decide

def closesStack : List UInt8 → CodeView → Bool
  | stack, [] => stack.isEmpty
  | stack, none :: rest => closesStack stack rest
  | stack, some b :: rest =>
      if isOpener b then closesStack (closerOf b :: stack) rest
      else if isCloser b then
        match stack with
        | [] => false
        | closer :: stack => b == closer && closesStack stack rest
      else closesStack stack rest

theorem Nested.closesStack_append {view rest : CodeView} (hnested : Nested view)
    (stack : List UInt8) :
    closesStack stack (view ++ rest) = closesStack stack rest := by
  induction hnested generalizing stack rest with
  | nil => rfl
  | @skip code view hcode hview ih =>
      cases code with
      | none => exact ih stack
      | some b => simp [closesStack, hcode b rfl, ih stack]
  | @wrap opener closer inner after hpairs hinner hafter ihInner ihAfter =>
      obtain ⟨hopens, hneither, hcloses⟩ := not_isOpener_of_pairs hpairs
      obtain ⟨-, rfl⟩ := pairs_iff.mp hpairs
      simp [closesStack, hopens, hneither, hcloses, ihInner, ihAfter]

/-- What a stack that is closed was closed by. -/
def Closing : List UInt8 → CodeView → Prop
  | [], view => Nested view
  | closer :: stack, view =>
      ∃ inner rest, view = inner ++ some closer :: rest ∧ Nested inner ∧ Closing stack rest

theorem closing_of_closesStack {stack : List UInt8} {view : CodeView}
    (h : closesStack stack view = true) : Closing stack view := by
  induction view generalizing stack with
  | nil =>
      cases stack with
      | nil => exact .nil
      | cons closer stack => cases h
  | cons code view ih =>
      have hskip : (∀ b, code = some b → isOpener b = false ∧ isCloser b = false) →
          closesStack stack view = true → Closing stack (code :: view) := by
        intro hcode hview
        have hclosing := ih hview
        cases stack with
        | nil => exact .skip hcode hclosing
        | cons closer stack =>
            obtain ⟨inner, rest, rfl, hinner, hrest⟩ := hclosing
            exact ⟨code :: inner, rest, rfl, .skip hcode hinner, hrest⟩
      cases code with
      | none => exact hskip (by simp) h
      | some b =>
          unfold closesStack at h
          split at h
          · next hopens =>
              obtain ⟨inner, rest, rfl, hinner, hrest⟩ := ih h
              have hpairs := pairs_iff.mpr ⟨hopens, rfl⟩
              cases stack with
              | nil => exact .wrap hpairs hinner hrest
              | cons closer stack =>
                  obtain ⟨after, rest, rfl, hafter, hrest⟩ := hrest
                  exact ⟨some b :: inner ++ some (closerOf b) :: after, rest, by simp,
                    .wrap hpairs hinner hafter, hrest⟩
          · next hopens =>
              split at h
              · cases stack with
                | nil => cases h
                | cons closer stack =>
                    obtain ⟨hcloser, hview⟩ := Bool.and_eq_true_iff.mp h
                    exact ⟨[], view, by rw [beq_iff_eq.mp hcloser]; rfl, .nil, ih hview⟩
              · next hcloses =>
                  refine hskip ?_ h
                  rintro c ⟨rfl⟩
                  simp [hopens, hcloses]

theorem nested_iff_closesStack {view : CodeView} : Nested view ↔ closesStack [] view = true := by
  constructor
  · intro hnested
    have happend := @Nested.closesStack_append view [] hnested []
    rwa [List.append_nil] at happend
  · intro h
    exact closing_of_closesStack h

instance (view : CodeView) : Decidable (Nested view) :=
  decidable_of_iff _ nested_iff_closesStack.symm

end CodeView

end Extraction
