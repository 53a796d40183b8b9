import Extraction.Proofs.Search
import Extraction.Proofs.Walk
/-!
The layout of a declaration: how the view of a text is made up around a block that the scan by
depth finds. The scan finds a declaration exactly if the view has such a layout, and the layout
gives all its offsets.
-/

namespace Extraction.Balanced

open Byte CodeView

/-- The body of a block without a list, or its end from a depth and after a byte. -/
structure BareBody (depth : Nat) (previous : Option UInt8) (body : CodeView) : Prop where
  closed : blockDepth? depth body = some 0
  free : KeyFree depth previous body

/-- The body of a block with a list, or its end: what stands before the key, the white space in
front of its colon and of its bracket, the contents, and what follows the list. -/
structure ListedBody (depth : Nat) (previous : Option UInt8) (left : CodeView)
    (before after : Bytes) (contents right : CodeView) : Prop where
  left_closed : blockDepth? depth left = some 0
  left_free : KeyFree depth previous left
  key_previous : (left.getLast?.getD previous).any isIdent = false
  before_blank : IsBlank before
  after_blank : IsBlank after
  contents_closed : listDepth? 0 contents = some 0
  right_closed : blockDepth? 0 right = some 0

def listedView (left : CodeView) (before after : Bytes) (contents right : CodeView) : CodeView :=
  left ++ ((keyText before after).map some ++ (contents ++ some closeBracket :: right))

def listedAt (offset : Nat) (left : CodeView) (before after : Bytes) (contents : CodeView) :
    ListProperty :=
  let start := offset + left.length
  let stop := start + (keyText before after).length + contents.length
  ⟨start, stop + 1, ⟨start + (keyText before after).length, stop⟩⟩

theorem BareBody.close? {depth : Nat} {previous : Option UInt8} {body rest : CodeView}
    (hbody : BareBody depth previous body) (offset : Nat) :
    Balanced.close? (.block depth) none previous offset (body ++ some closeBrace :: rest) =
      some (offset + body.length, none) := by
  rw [close?_block_append hbody.closed fun _ => ⟨hbody.free, by decide⟩,
    close?_block_end rfl]
  rfl

theorem close?_block_left {depth offset : Nat} {previous : Option UInt8} {left : CodeView}
    {before after : Bytes} {rest : CodeView} (hclosed : blockDepth? depth left = some 0)
    (hfree : KeyFree depth previous left)
    (hprevious : (left.getLast?.getD previous).any isIdent = false) (hbefore : IsBlank before)
    (hafter : IsBlank after) :
    close? (.block depth) none previous offset
        (left ++ ((keyText before after).map some ++ rest)) =
      close? (.list (offset + left.length)
          (offset + left.length + (keyText before after).length - 1) 0) none (some openBracket)
        (offset + left.length + (keyText before after).length) rest := by
  have hkey : (keyText before after).map some ++ rest =
      some 0x69 :: ((keyText before after).tail.map some ++ rest) := rfl
  rw [hkey, close?_block_append hclosed fun _ => ⟨hfree, by decide⟩, ← hkey,
    close?_block_keyText hbefore hafter hprevious]

theorem ListedBody.close? {depth : Nat} {previous : Option UInt8} {left : CodeView}
    {before after : Bytes} {contents right rest : CodeView}
    (hbody : ListedBody depth previous left before after contents right) (offset : Nat) :
    Balanced.close? (.block depth) none previous offset
        (listedView left before after contents right ++ some closeBrace :: rest) =
      some (offset + (listedView left before after contents right).length,
        some (listedAt offset left before after contents)) := by
  have hview : listedView left before after contents right ++ some closeBrace :: rest =
      left ++ ((keyText before after).map some ++
        (contents ++ some closeBracket :: (right ++ some closeBrace :: rest))) := by
    simp [listedView]
  rw [hview, close?_block_left hbody.left_closed hbody.left_free hbody.key_previous
      hbody.before_blank hbody.after_blank,
    close?_list_append hbody.contents_closed, close?_list_end rfl,
    close?_block_append hbody.right_closed (by simp),
    close?_block_end rfl]
  simp only [if_true, Option.some.injEq, Prod.mk.injEq, listedAt, ListProperty.mk.injEq,
    Span.mk.injEq, listedView, List.length_append, List.length_map, List.length_cons,
    length_keyText, true_and, and_true]
  omega

/-! What the walk to the closing brace went through. -/

theorem exists_of_close?_block_some {depth offset stop : Nat} {list : ListProperty}
    {found : Option ListProperty} {previous : Option UInt8} {view : CodeView}
    (h : close? (.block depth) (some list) previous offset view = some (stop, found)) :
    ∃ body rest, view = body ++ some closeBrace :: rest ∧
      blockDepth? depth body = some 0 ∧ stop = offset + body.length ∧ found = some list := by
  induction view generalizing depth previous offset with
  | nil => cases h
  | cons code view ih =>
      cases hnext : blockDepth? depth [code] with
      | some next =>
          rw [close?_block_step hnext (by simp)] at h
          obtain ⟨body, rest, rfl, hdepth, rfl, rfl⟩ := ih h
          exact ⟨code :: body, rest, rfl, (depth?_append_of_eq hnext).trans hdepth,
            by simp [Nat.add_assoc, Nat.add_comm 1], rfl⟩
      | none =>
          obtain ⟨-, -, rfl, -, -⟩ := exists_of_depth?_single hnext
          rw [close?_block_end hnext] at h
          split at h
          · next hbrace =>
              cases h
              exact ⟨[], view, by rw [hbrace]; rfl, rfl, rfl, rfl⟩
          · cases h

theorem exists_of_close?_list {start bracket depth offset stop : Nat}
    {found : Option ListProperty} {previous : Option UInt8} {view : CodeView}
    (h : close? (.list start bracket depth) none previous offset view = some (stop, found)) :
    ∃ contents rest, view = contents ++ some closeBracket :: rest ∧
      listDepth? depth contents = some 0 ∧
      close? (.block 0) (some ⟨start, offset + contents.length + 1,
          ⟨bracket + 1, offset + contents.length⟩⟩) (some closeBracket)
        (offset + contents.length + 1) rest = some (stop, found) := by
  induction view generalizing depth previous offset with
  | nil => cases h
  | cons code view ih =>
      cases hnext : listDepth? depth [code] with
      | some next =>
          rw [close?_list_step hnext] at h
          obtain ⟨contents, rest, rfl, hdepth, hclose⟩ := ih h
          refine ⟨code :: contents, rest, rfl, (depth?_append_of_eq hnext).trans hdepth, ?_⟩
          simpa [Nat.add_assoc, Nat.add_comm 1] using hclose
      | none =>
          obtain ⟨b, rfl, rfl, -, hcloses⟩ := exists_of_depth?_single hnext
          obtain rfl := beq_iff_eq.mp hcloses
          rw [close?_list_end hnext] at h
          exact ⟨[], view, rfl, rfl, h⟩

/-- The end of a walk through a block, without a list on the way or with one. -/
def Walked (depth : Nat) (previous : Option UInt8) (offset : Nat) (view : CodeView) (stop : Nat)
    (found : Option ListProperty) : Prop :=
  (∃ body rest, view = body ++ some closeBrace :: rest ∧ BareBody depth previous body ∧
      stop = offset + body.length ∧ found = none) ∨
    ∃ left before after contents right rest,
      view = listedView left before after contents right ++ some closeBrace :: rest ∧
      ListedBody depth previous left before after contents right ∧
      stop = offset + (listedView left before after contents right).length ∧
      found = some (listedAt offset left before after contents)

theorem Walked.cons {depth next offset stop : Nat} {previous code : Option UInt8}
    {view : CodeView} {found : Option ListProperty}
    (hhead : depth = 0 → listOpening? previous (code :: view) = none)
    (hnext : blockDepth? depth [code] = some next)
    (h : Walked next code (offset + 1) view stop found) :
    Walked depth previous offset (code :: view) stop found := by
  rcases h with ⟨body, rest, rfl, hbody, rfl, rfl⟩ |
      ⟨left, before, after, contents, right, rest, rfl, hbody, rfl, rfl⟩
  · refine .inl ⟨code :: body, rest, rfl, ⟨(depth?_append_of_eq hnext).trans hbody.closed,
      hbody.free.cons hhead hnext⟩, ?_, rfl⟩
    simp [Nat.add_assoc, Nat.add_comm 1]
  · refine .inr ⟨code :: left, before, after, contents, right, rest, rfl, ?_, ?_, ?_⟩
    · exact { hbody with
        left_closed := (depth?_append_of_eq hnext).trans hbody.left_closed
        left_free := hbody.left_free.cons (fun hzero => by
          simpa [listedView] using hhead hzero) hnext
        key_previous := by simpa [List.getLast?_cons] using hbody.key_previous }
    · simp [listedView, Nat.add_assoc, Nat.add_comm 1]
    · simp [listedAt, Nat.add_assoc, Nat.add_comm 1]

theorem walked_of_close? {depth offset stop : Nat} {previous : Option UInt8} {view : CodeView}
    {found : Option ListProperty}
    (h : close? (.block depth) none previous offset view = some (stop, found)) :
    Walked depth previous offset view stop found := by
  induction view generalizing depth previous offset with
  | nil => cases h
  | cons code view ih =>
      by_cases hkey : depth = 0 → listOpening? previous (code :: view) = none
      · cases hnext : blockDepth? depth [code] with
        | some next =>
            rw [close?_block_step hnext fun hzero _ => hkey hzero] at h
            exact (ih h).cons hkey hnext
        | none =>
            obtain ⟨-, -, rfl, -, -⟩ := exists_of_depth?_single hnext
            rw [close?_block_end hnext] at h
            split at h
            · next hbrace =>
                cases h
                exact .inl ⟨[], view, by rw [hbrace]; rfl, ⟨rfl, .nil⟩, rfl, rfl⟩
            · cases h
      · rw [Classical.not_imp] at hkey
        obtain ⟨rfl, hkey⟩ := hkey
        obtain ⟨width, hwidth⟩ := Option.ne_none_iff_exists'.mp hkey
        obtain ⟨hprevious, before, after, rest, hbefore, hafter, hview, -⟩ :=
          listOpening?_eq_some_iff.mp hwidth
        rw [hview, close?_block_keyText hbefore hafter hprevious] at h
        obtain ⟨contents, rest, rfl, hcontents, h⟩ := exists_of_close?_list h
        obtain ⟨right, rest, rfl, hright, rfl, rfl⟩ := exists_of_close?_block_some h
        refine .inr ⟨[], before, after, contents, right, rest, ?_,
          ⟨rfl, .nil, hprevious, hbefore, hafter, hcontents, hright⟩, ?_, ?_⟩
        · rw [hview]
          simp [listedView]
        · simp [listedView]
          omega
        · simp [listedAt]
          omega

/-! The view of a text around a block. -/

def MarkerFree (view : CodeView) : Prop :=
  ∀ left blank right, IsBlank blank → view ≠ left ++ ((openingText blank).map some ++ right)

theorem MarkerFree.of_not_mem {view : CodeView} (hmarker : some 0x40 ∉ view) :
    MarkerFree view := by
  rintro left blank right - rfl
  exact hmarker (List.mem_append_right _ (List.mem_append_left _ List.mem_cons_self))

theorem MarkerFree.opening?_eq_none {view rest : CodeView} (hfree : MarkerFree view)
    (hview : view ≠ []) : opening? (view ++ some 0x40 :: rest) = none := by
  rw [Option.eq_none_iff_forall_ne_some]
  intro width hwidth
  obtain ⟨blank, tail, hblank, htail, -⟩ := opening?_eq_some_iff.mp hwidth
  have hstop : some 0x40 ∉ ((openingText blank).map some).tail := by
    have hsplit : ((openingText blank).map some).tail =
        (marker.tail ++ blank ++ [openBrace]).map some := rfl
    rw [hsplit, List.mem_map]
    rintro ⟨b, hb, hmarker⟩
    obtain rfl := Option.some.inj hmarker
    simp only [List.mem_append, List.mem_singleton] at hb
    rcases hb with (hb | hb) | hb
    · revert hb
      decide
    · have hblank' := List.all_eq_true.mp hblank _ hb
      revert hblank'
      decide
    · revert hb
      decide
  obtain ⟨right, rfl⟩ := prefix_of_prefix_append_cons ⟨tail, htail.symm⟩ hview hstop
  exact hfree [] blank right hblank rfl

/-- The view of a text with a block: what stands before the marker, the white space behind the
marker, the body, and what follows the closing brace. -/
def blockView (lead : CodeView) (blank : Bytes) (body rest : CodeView) : CodeView :=
  lead ++ ((openingText blank).map some ++ (body ++ some closeBrace :: rest))

def blockAt (lead : CodeView) (blank : Bytes) (body rest : CodeView) : Block :=
  let brace := lead.length + marker.length + blank.length
  let close := brace + 1 + body.length
  ⟨lead.length, close + 1 + (separator? closeParen rest).getD 0, brace, close⟩

theorem drop_blockView_rest (lead : CodeView) (blank : Bytes) (body rest : CodeView) :
    (blockView lead blank body rest).drop
      ((blockAt lead blank body rest).closeBrace + 1) = rest := by
  have hview : blockView lead blank body rest =
      (lead ++ (openingText blank).map some ++ body ++ [some closeBrace]) ++ rest := by
    simp [blockView]
  rw [hview]
  exact List.drop_left' (by simp [blockAt]; omega)

theorem firstMatch?_opening {lead : CodeView} {blank : Bytes} (hlead : MarkerFree lead)
    (hblank : IsBlank blank) (tail : CodeView) :
    firstMatch? opening? (lead ++ ((openingText blank).map some ++ tail)) =
      some (lead.length, marker.length + blank.length) := by
  refine firstMatch?_eq_some_iff.mpr ⟨lead, _, rfl, rfl, ?_, ?_⟩
  · exact opening?_eq_some_iff.mpr ⟨blank, _, hblank, rfl, rfl⟩
  · rintro left right rfl hright
    refine MarkerFree.opening?_eq_none ?_ hright
    intro left' blank' right' hblank' hview
    exact hlead (left ++ left') blank' right' hblank' (by simp [hview])

theorem drop_opening (lead : CodeView) (blank : Bytes) (tail : CodeView) :
    (lead ++ ((openingText blank).map some ++ tail)).drop
      (lead.length + marker.length + blank.length + 1) = tail := by
  rw [← List.append_assoc]
  exact List.drop_left' (by simp; omega)

theorem exists_close?_of_scanView {lead : CodeView} {blank : Bytes} {tail : CodeView}
    {block : Block} {list : Option ListProperty} (hlead : MarkerFree lead)
    (hblank : IsBlank blank)
    (h : scanView (lead ++ ((openingText blank).map some ++ tail)) = some ⟨block, list⟩) :
    ∃ stop, close? (.block 0) none (some openBrace)
      (lead.length + marker.length + blank.length + 1) tail = some (stop, list) := by
  rw [scanView, firstMatch?_opening hlead hblank] at h
  simp only [← Nat.add_assoc, drop_opening] at h
  split at h
  · cases h
  · next stop found hclose =>
      cases h
      exact ⟨stop, hclose⟩

theorem scanView_blockView {lead : CodeView} {blank : Bytes} {body rest : CodeView}
    {list : Option ListProperty} (hlead : MarkerFree lead) (hblank : IsBlank blank)
    (hclose : close? (.block 0) none (some openBrace)
      (lead.length + marker.length + blank.length + 1) (body ++ some closeBrace :: rest) =
        some ((blockAt lead blank body rest).closeBrace, list)) :
    scanView (blockView lead blank body rest) =
      some ⟨blockAt lead blank body rest, list⟩ := by
  have hassoc : lead.length + (marker.length + blank.length) =
      lead.length + marker.length + blank.length := (Nat.add_assoc _ _ _).symm
  have hfirst : firstMatch? opening? (blockView lead blank body rest) =
      some (lead.length, marker.length + blank.length) := firstMatch?_opening hlead hblank _
  have hdrop : (blockView lead blank body rest).drop
      (lead.length + marker.length + blank.length + 1) = body ++ some closeBrace :: rest :=
    drop_opening _ _ _
  rw [scanView, hfirst]
  simp only [hassoc, hdrop, hclose, drop_blockView_rest]
  rfl

theorem scanView_bare {lead : CodeView} {blank : Bytes} {body rest : CodeView}
    (hlead : MarkerFree lead) (hblank : IsBlank blank)
    (hbody : BareBody 0 (some openBrace) body) :
    scanView (blockView lead blank body rest) =
      some ⟨blockAt lead blank body rest, none⟩ :=
  scanView_blockView hlead hblank (hbody.close? _)

theorem scanView_listed {lead : CodeView} {blank : Bytes} {left : CodeView}
    {before after : Bytes} {contents right rest : CodeView} (hlead : MarkerFree lead)
    (hblank : IsBlank blank)
    (hbody : ListedBody 0 (some openBrace) left before after contents right) :
    scanView (blockView lead blank (listedView left before after contents right) rest) =
      some ⟨blockAt lead blank (listedView left before after contents right) rest,
        some (listedAt (lead.length + marker.length + blank.length + 1) left before after
          contents)⟩ :=
  scanView_blockView hlead hblank (hbody.close? _)

/-- A view in which a declaration is found, with the declaration. -/
inductive Layout : CodeView → Declaration → Prop
  | bare {lead : CodeView} {blank : Bytes} {body rest : CodeView} (hlead : MarkerFree lead)
      (hblank : IsBlank blank) (hbody : BareBody 0 (some openBrace) body) :
      Layout (blockView lead blank body rest) ⟨blockAt lead blank body rest, none⟩
  | listed {lead : CodeView} {blank : Bytes} {left : CodeView} {before after : Bytes}
      {contents right rest : CodeView} (hlead : MarkerFree lead) (hblank : IsBlank blank)
      (hbody : ListedBody 0 (some openBrace) left before after contents right) :
      Layout (blockView lead blank (listedView left before after contents right) rest)
        ⟨blockAt lead blank (listedView left before after contents right) rest,
          some (listedAt (lead.length + marker.length + blank.length + 1) left before after
            contents)⟩

theorem layout_of_scanView {view : CodeView} {declaration : Declaration}
    (h : scanView view = some declaration) : Layout view declaration := by
  have hscan := h
  rw [scanView] at h
  split at h
  · cases h
  · next start width hfirst =>
      obtain ⟨lead, tail, rfl, rfl, hopening, hnone⟩ := firstMatch?_eq_some_iff.mp hfirst
      obtain ⟨blank, more, hblank, rfl, rfl⟩ := opening?_eq_some_iff.mp hopening
      have hlead : MarkerFree lead := by
        rintro left blank' right hblank' rfl
        have hfree := hnone left _ rfl (by simp [openingText])
        rw [List.append_assoc,
          opening?_eq_some_iff.mpr ⟨blank', _, hblank', rfl, rfl⟩] at hfree
        cases hfree
      simp only [← Nat.add_assoc, drop_opening] at h
      split at h
      · cases h
      · next stop list hclose =>
          rcases walked_of_close? hclose with ⟨body, rest, rfl, hbody, -, -⟩ |
              ⟨left, before, after, contents, right, rest, rfl, hbody, -, -⟩
          · obtain rfl := Option.some.inj (hscan.symm.trans (scanView_bare hlead hblank hbody))
            exact .bare hlead hblank hbody
          · obtain rfl := Option.some.inj (hscan.symm.trans (scanView_listed hlead hblank hbody))
            exact .listed hlead hblank hbody

end Extraction.Balanced
