import Extraction.Proofs.Insert
import Extraction.Proofs.Search
/-!
The tokens of a text with a new list in it. The list adds code in front of the closing brace and
leaves every literal and comment as it was; only a line comment that is now ended by another line
break may have a carriage return more.
-/

namespace Extraction

open Byte CodeView

theorem StopsLine.exists_gainsReturn {line right lineBreak : Bytes}
    (hstops : StopsLine line right)
    (hbreak : lineBreak = [lineFeed] ∨ lineBreak = [carriageReturn, lineFeed])
    (hreturn : ∀ rest, right = carriageReturn :: lineFeed :: rest →
      lineBreak = [carriageReturn, lineFeed]) :
    ∃ items more, GainsReturn items more ∧
      solid (tokens (line ++ right)) = items ++ solid (tokens right) ∧
      ∀ tail, solid (tokens (line ++ (lineBreak ++ tail))) = more ++ solid (tokens tail) := by
  have hblank : Balanced.IsBlank lineBreak := by
    rcases hbreak with rfl | rfl <;> decide
  rcases hstops with hcode | ⟨hcomment, hline⟩
  · refine ⟨_, _, .same (solid (tokens line)), ?_, ?_⟩
    · rw [tokens_append (.inl hcode), solid_append]
    · intro tail
      have hcalm : Mode.Calm (lineBreak ++ tail).head? := by
        rcases hbreak with rfl | rfl <;> exact Balanced.calm_cons (by decide)
      rw [(EndsInCode.of_after hcode).tokens_append hcalm, solid_append,
        solid_blank_append hblank]
  · have hcalm : Mode.Calm right.head? := by
      rcases hline with hline | ⟨rest, rfl⟩
      · rw [hline]
        decide
      · exact Balanced.calm_cons (by decide)
    obtain ⟨init, comment, rfl, hkind, hinit⟩ :=
      (Mode.exists_lineComment hcalm hcomment).resolve_right (by simp)
    have hfeed : ∀ rest, solid (tokens (lineFeed :: rest)) = solid (tokens rest) :=
      @solid_blank_append [lineFeed] (by decide)
    have hshort : ∀ rest, solid (tokens ((init ++ comment) ++ lineFeed :: rest)) =
        (solid (tokens init) ++ [.lineComment comment]) ++ solid (tokens rest) := by
      intro rest
      rw [hkind.tokens_append hinit, solid_append, solid_append, hfeed]
      rfl
    have hlong : ∀ rest,
        solid (tokens ((init ++ comment) ++ carriageReturn :: lineFeed :: rest)) =
          (solid (tokens init) ++ [.lineComment (comment ++ [carriageReturn])]) ++
            solid (tokens rest) := by
      intro rest
      have hsplit : (init ++ comment) ++ carriageReturn :: lineFeed :: rest =
          (init ++ (comment ++ [carriageReturn])) ++ lineFeed :: rest := by simp
      rw [hsplit, hkind.append_return.tokens_append hinit, solid_append, solid_append, hfeed]
      rfl
    rcases hline with hline | ⟨rest, rfl⟩
    · obtain ⟨rest, rfl⟩ := List.head?_eq_some_iff.mp hline
      rcases hbreak with rfl | rfl
      · exact ⟨_, _, .same _, by rw [hshort, hfeed], hshort⟩
      · exact ⟨_, _, .gain _ _ [], by rw [hshort, hfeed], hlong⟩
    · obtain rfl := hreturn rest rfl
      refine ⟨_, _, .same _, ?_, hlong⟩
      rw [hlong]
      exact congrArg _ (@solid_blank_append [carriageReturn, lineFeed] (by decide) rest).symm

namespace Balanced

/-- The comma before a new property, behind the significant tokens of a body. -/
def separatorTokens (items : List Token) : List Token :=
  if items.getLast? = none ∨ items.getLast? = some (.code comma) then [] else [.code comma]

/-- The significant tokens of a list of one name. -/
def listTokens (name : String) : List Token :=
  (utf8 "imports:[" ++ utf8 name ++ utf8 "]").map .code

theorem Site.separatorTokens_eq {body code line right : Bytes} {byte : UInt8}
    (hsite : Site body byte code line right) :
    separatorTokens ((tokens body).filter Token.isSignificant) = (separator byte).map .code := by
  obtain ⟨before, token, hlast, hcomma, -⟩ := hsite.last
  rw [hlast, separatorTokens, separator, List.getLast?_concat]
  by_cases hbyte : byte = comma
  · simp [hbyte, hcomma.mp hbyte]
  · simp [hbyte, mt hcomma.mpr hbyte]

theorem Site.code_before {body code line right : Bytes} {byte : UInt8}
    (hsite : Site body byte code line right) (rest : Bytes) :
    Mode.code.after code (separator byte ++ rest).head? = .code := by
  by_cases hbyte : byte = comma
  · obtain ⟨init, rfl, hinit⟩ := hsite.last_comma hbyte
    rw [Mode.after_append]
    exact (congrArg (Mode.after · [comma] _) hinit).trans
      (Mode.after_code_of_plain (by decide))
  · simp only [separator, beq_iff_eq, hbyte, if_false]
    exact (EndsInCode.of_after hsite.code_after).after_eq (calm_cons (by decide))

theorem isPlain_separator (byte : UInt8) : (separator byte).all isPlain = true := by
  unfold separator
  split <;> decide

theorem solid_separator (byte : UInt8) :
    solid ((separator byte).map .code) = (separator byte).map .code := by
  unfold separator
  split <;> rfl

theorem isPlain_listProperty (import_ : Import) :
    (listProperty import_.name []).all isPlain = true := by
  have hname := isPlain_of_isIdent import_.name_isIdent
  simp only [listProperty, List.isEmpty_nil, if_true, List.all_append, hname, Bool.and_true]
  decide

theorem solid_listProperty (import_ : Import) :
    solid ((listProperty import_.name []).map .code) = listTokens import_.name := by
  have hname : solid ((utf8 import_.name).map .code) = (utf8 import_.name).map .code := by
    rw [solid, List.filter_eq_self]
    intro token htoken
    obtain ⟨b, hb, rfl⟩ := List.mem_map.mp htoken
    have hident := List.all_eq_true.mp import_.name_isIdent b hb
    cases hblank : isAsciiBlank b with
    | true => simp [not_isIdent_of_isAsciiBlank hblank] at hident
    | false => simp [Token.isBlank, hblank]
  simp only [listProperty, List.isEmpty_nil, if_true, List.map_append, solid_append, hname,
    listTokens]
  rfl

/-- What a new list adds to the tokens of a body: a comma and the tokens of the list, with
comments around them that the body had. -/
theorem Inserted.exists_tokens {text body new : Bytes} {import_ : Import}
    (hinserted : Inserted import_.name (lineBreak text) body new) (hends : EndsInCode body)
    (htext : body <:+: text) :
    EndsInCode new ∧ ∃ before items more after, GainsReturn items more ∧
      solid (tokens body) = before ++ (items ++ after) ∧
      solid (tokens new) =
        before ++ (separatorTokens ((tokens body).filter Token.isSignificant) ++
          (more ++ (listTokens import_.name ++ after))) ∧
      (items ++ after).filter Token.isSignificant = [] := by
  have hproperty := isPlain_listProperty import_
  cases hinserted with
  | alone hquiet hnone =>
      have hcalm : Mode.Calm (listProperty import_.name []).head? :=
        @calm_cons 0x69 _ (by decide)
      refine ⟨hends.append (.of_plain hproperty) hcalm, solid (tokens body), [], [], [],
        .same _, by simp, ?_, rfl⟩
      rw [hnone, hends.tokens_append hcalm, solid_append, tokens_of_plain hproperty,
        solid_listProperty]
      simp [separatorTokens]
  | @behind byte code line right indent hsite hindent =>
      obtain ⟨-, -, hrightEnds, -⟩ := StopsLine.quiet hsite.stops
        (isLineStart_lineBreak text hindent) hsite.ends hsite.quiet
      have hreturn : ∀ rest, right = carriageReturn :: lineFeed :: rest →
          lineBreak text = [carriageReturn, lineFeed] := by
        rintro rest rfl
        refine lineBreak_of_pair (.trans ?_ htext)
        exact ⟨code ++ line, rest, by rw [hsite.body_eq]; simp⟩
      obtain ⟨items, more, hgains, hold, hnew⟩ :=
        hsite.stops.exists_gainsReturn (eq_lineBreak_or text) hreturn
      have hbody : solid (tokens body) =
          solid (tokens code) ++ (items ++ solid (tokens right)) := by
        rw [hsite.body_eq, tokens_append (.inl hsite.code_after), solid_append, hold]
      refine ⟨?_, solid (tokens code), items, more, solid (tokens right), hgains, hbody, ?_, ?_⟩
      · have hlineEnds := (StopsLine.quiet hsite.stops (isLineStart_lineBreak text hindent)
          hsite.ends hsite.quiet).1
        have hlistEnds : EndsInCode (listProperty import_.name [] ++ right) :=
          .plain_append hproperty hrightEnds
        have hcalm : Mode.Calm (listProperty import_.name [] ++ right).head? :=
          @calm_cons 0x69 _ (by decide)
        have hbehind := hlineEnds.append hlistEnds hcalm
        simp only [List.append_assoc] at hbehind
        exact .append_of_after (hsite.code_before _)
          (.plain_append (isPlain_separator byte) hbehind)
      · rw [tokens_append (.inl (hsite.code_before _)), solid_append,
          tokens_plain_append (isPlain_separator byte), solid_append, hnew,
          solid_blank_append hindent, tokens_plain_append hproperty, solid_append,
          solid_listProperty, hsite.separatorTokens_eq, solid_separator]
      · obtain ⟨-, -, -, -, hrest⟩ := hsite.last
        rwa [← hold, filter_solid fun _ => Token.isSignificant_code_of_isAsciiBlank]

/-! The text around the body. -/

theorem tokens_literal {quote : UInt8} {content : Bytes} (hquoted : Quoted quote content) :
    (Mode.literal quote).tokens (content ++ [quote]) = (content ++ [quote], []) := by
  induction hquoted with
  | nil =>
      have hinside : Mode.literal quote ≠ .code := nofun
      exact (Mode.tokens_cons_of_within hinside nofun).1
  | @byte b rest hbyte hbackslash _ ih =>
      rw [List.cons_append, Mode.tokens_cons, Mode.literal_step_byte hbyte hbackslash, ih]
  | @escape b rest _ ih =>
      rw [List.cons_append, List.cons_append, Mode.tokens_cons, Mode.literal_step_backslash,
        Mode.tokens_cons]
      simp only [Mode.step]
      rw [ih]

theorem tokens_importLine (import_ : QuotedImport) (text : Bytes) :
    tokens (import_.line text) = import_.opening.map .code ++
      .literal (literalText apostrophe (utf8 import_.path)) ::
        (utf8 ";" ++ lineBreak text).map .code := by
  have hliteral : tokens (literalText apostrophe (utf8 import_.path)) =
      [.literal (literalText apostrophe (utf8 import_.path))] := by
    have hstep : ∀ next, Mode.code.step apostrophe next = .literal apostrophe :=
      Mode.code_step_quote rfl
    rw [literalText, tokens, Mode.tokens_cons, hstep,
      tokens_literal import_.quoted_path]
  have hsemicolon := isPlain_semicolon text
  rw [import_.line_eq, tokens_plain_append import_.isPlain_opening,
    tokens_append (.inl (code_literalText rfl import_.quoted_path _).1), hliteral,
    tokens_of_plain hsemicolon]
  rfl

theorem Frame.tokens_text (frame : Frame) {body : Bytes} (hbody : EndsInCode body) :
    tokens (frame.text body) = tokens frame.lead ++ ((openingText frame.blank).map .code ++
      (tokens body ++ .code closeBrace :: tokens frame.rest)) := by
  rw [text, frame.lead_ends.tokens_append (calm_openingText _ _),
    tokens_plain_append (isPlain_openingText frame.blank_isBlank),
    hbody.tokens_append (calm_cons (by decide)), ← List.singleton_append,
    tokens_plain_append (by decide)]
  rfl

theorem Frame.tokens_withImport (frame : Frame) (import_ : QuotedImport) (source : Bytes)
    {body : Bytes} (hbody : EndsInCode body) :
    tokens ((frame.withImport import_ source).text body) =
      tokens (import_.line source) ++ tokens (frame.text body) := by
  rw [tokens_text _ hbody, tokens_text _ hbody, withImport,
    tokens_append (.inl (import_.code_of_line source _).1), List.append_assoc]

namespace BareSource

variable (source : BareSource)

theorem exists_rewire_inserted (import_ : QuotedImport) :
    ∃ body, Inserted import_.name (lineBreak source.text) source.body body ∧
      rewire source.text import_.name import_.path .balanced =
        .rewired ((source.withImport import_ source.text).text body) source.block .inserted := by
  obtain ⟨body, hinserted, hsource⟩ := source.exists_inserted import_.name
  refine ⟨body, hinserted, ?_⟩
  rw [rewire]
  simp only [BlockScan.scan, source.scan_text, Import.importStatement_eq_line,
    List.append_assoc] at hsource ⊢
  simp [hsource, Frame.text, Frame.withImport]

theorem take_openBrace :
    source.text.take source.block.openBrace = source.lead ++ (marker ++ source.blank) := by
  have hwidth : source.block.openBrace = (source.lead ++ (marker ++ source.blank)).length := by
    have hstart := source.block_openBrace source.body
    simp only [Frame.bodyStart] at hstart
    simp only [block, List.length_append]
    omega
  have htext : source.text = (source.lead ++ (marker ++ source.blank)) ++
      openBrace :: (source.body ++ closeBrace :: source.rest) := by
    simp [text, Frame.text, openingText]
  rw [hwidth, htext, List.take_left]

theorem tokens_take : tokens (source.text.take source.block.openBrace) =
    tokens source.lead ++ (marker ++ source.blank).map .code := by
  have hplain : (marker ++ source.blank).all isPlain = true := by
    rw [List.all_append, source.blank_isBlank.isPlain]
    decide
  have hcalm : Mode.Calm (marker ++ source.blank).head? := @calm_cons 0x40 _ (by decide)
  rw [take_openBrace, source.lead_ends.tokens_append hcalm, tokens_of_plain hplain]

theorem drop_closeBrace : source.text.drop (source.block.closeBrace + 1) = source.rest := by
  have hclose : source.block.closeBrace = source.bodyStart + source.body.length :=
    source.block_closeBrace source.body
  have hdrop := source.drop_text source.body []
  rw [List.append_nil, List.nil_append] at hdrop
  rw [hclose, ← List.drop_drop, text, hdrop]
  rfl

/-- The tokens of the text around a body, the old one or a new one. -/
theorem tokens_text_eq {body : Bytes} (hbody : EndsInCode body) :
    tokens (source.toFrame.text body) =
      tokens (source.text.take source.block.openBrace) ++ .code openBrace ::
        (tokens body ++ .code closeBrace :: tokens source.rest) := by
  rw [tokens_take, source.tokens_text hbody, openingText]
  simp

theorem filter_tokens_text {keeps : Token → Bool}
    (hkeeps : ∀ b, isAsciiBlank b = true → keeps (.code b) = false) {body : Bytes}
    (hbody : EndsInCode body) :
    (tokens (source.toFrame.text body)).filter keeps =
      (tokens (source.text.take source.block.openBrace) ++ [Token.code openBrace]).filter keeps ++
        ((solid (tokens body)).filter keeps ++
          (Token.code closeBrace :: tokens source.rest).filter keeps) := by
  rw [source.tokens_text_eq hbody, filter_solid hkeeps, ← List.filter_append,
    ← List.filter_append]
  simp

theorem filter_tokens {keeps : Token → Bool}
    (hkeeps : ∀ b, isAsciiBlank b = true → keeps (.code b) = false) :
    (tokens source.text).filter keeps =
      (tokens (source.text.take source.block.openBrace) ++ [Token.code openBrace]).filter keeps ++
        ((solid (tokens source.body)).filter keeps ++
          (Token.code closeBrace :: tokens source.rest).filter keeps) :=
  source.filter_tokens_text hkeeps source.body_ends

end BareSource

theorem filter_separatorTokens {keeps : Token → Bool} (hkeeps : ∀ b, keeps (.code b) = false)
    (items : List Token) : (separatorTokens items).filter keeps = [] := by
  unfold separatorTokens
  split
  · rfl
  · exact filter_map_code hkeeps [comma]

theorem filter_separatorTokens_isSignificant (items : List Token) :
    (separatorTokens items).filter Token.isSignificant = separatorTokens items := by
  unfold separatorTokens
  split <;> rfl

theorem filter_listTokens_isSignificant (import_ : Import) :
    (listTokens import_.name).filter Token.isSignificant = listTokens import_.name := by
  rw [← solid_listProperty import_, filter_solid fun _ =>
    Token.isSignificant_code_of_isAsciiBlank, solid]
  refine List.filter_congr fun token htoken => ?_
  obtain ⟨b, -, rfl⟩ := List.mem_map.mp htoken
  rfl

theorem filter_tokens_importLine {keeps : Token → Bool} (hkeeps : ∀ b, keeps (.code b) = false)
    (import_ : QuotedImport) (text : Bytes) :
    (tokens (import_.line text)).filter keeps =
      [Token.literal (literalText apostrophe (utf8 import_.path))].filter keeps := by
  rw [tokens_importLine import_ text, List.filter_append, filter_map_code hkeeps,
    List.nil_append, List.filter_cons, filter_map_code hkeeps, List.filter_cons,
    List.filter_nil]

/-- What an import into a block without a list does to the tokens of the text. -/
theorem tokens_rewire_bare {text : Bytes} {block : Block}
    (hscan : scan text = some ⟨block, none⟩) (import_ : QuotedImport) :
    ∃ out before body after,
      rewire text import_.name import_.path .balanced = .rewired out block .inserted ∧
      tokens text = before ++ .code openBrace :: (body ++ .code closeBrace :: after) ∧
      before = tokens (text.take block.openBrace) ∧
      body = tokens (text.slice block.body) ∧
      after = tokens (text.drop (block.closeBrace + 1)) ∧
      (tokens out).filter Token.isLiteral =
        .literal (literalText apostrophe (utf8 import_.path)) ::
          (tokens text).filter Token.isLiteral ∧
      GainsReturn ((tokens text).filter Token.isComment)
        ((tokens out).filter Token.isComment) ∧
      (tokens out).filter Token.isSignificant =
        (tokens (import_.line text)).filter Token.isSignificant ++
          (before ++ .code openBrace :: body).filter Token.isSignificant ++
          separatorTokens (body.filter Token.isSignificant) ++ listTokens import_.name ++
          (.code closeBrace :: after).filter Token.isSignificant := by
  obtain ⟨source, rfl, rfl⟩ := exists_bareSource hscan
  obtain ⟨new, hinserted, hrewire⟩ := source.exists_rewire_inserted import_
  have hsub : source.body <:+: source.text := by
    refine ⟨source.lead ++ openingText source.blank, closeBrace :: source.rest, ?_⟩
    simp [BareSource.text, Frame.text]
  obtain ⟨hends, before, items, more, after, hgains, hold, hnew, hquiet⟩ :=
    hinserted.exists_tokens source.body_ends hsub
  have hout := source.tokens_withImport import_ source.text hends
  have hbody : tokens (source.text.slice source.block.body) = tokens source.body := by
    rw [source.slice_body]
  have hrest : tokens (source.text.drop (source.block.closeBrace + 1)) = tokens source.rest := by
    rw [source.drop_closeBrace]
  refine ⟨_, _, _, _, hrewire, ?_, rfl, rfl, rfl, ?_, ?_, ?_⟩
  · rw [hbody, hrest]
    exact source.tokens_text_eq source.body_ends
  · have hcode := Token.isLiteral_code
    have hmore : more.filter Token.isLiteral = items.filter Token.isLiteral :=
      hgains.filter_eq fun _ => rfl
    have hfirst : (tokens (import_.line source.text)).filter Token.isLiteral =
        [.literal (literalText apostrophe (utf8 import_.path))] :=
      filter_tokens_importLine hcode import_ source.text
    rw [hout, List.filter_append, hfirst, source.filter_tokens_text (fun b _ => hcode b) hends,
      source.filter_tokens (fun b _ => hcode b), hold, hnew]
    simp only [List.filter_append, filter_separatorTokens hcode, listTokens,
      filter_map_code hcode, hmore, List.nil_append, List.singleton_append]
  · have hcode := Token.isComment_code
    have hfirst : (tokens (import_.line source.text)).filter Token.isComment = [] :=
      filter_tokens_importLine hcode import_ source.text
    have hcomments := (hgains.append
      (tokens (source.text.take source.block.openBrace) ++ ([.code openBrace] ++ before))
      (after ++ .code closeBrace :: tokens source.rest)).comments
    rw [hout, List.filter_append, hfirst, source.filter_tokens_text (fun b _ => hcode b) hends,
      source.filter_tokens (fun b _ => hcode b), hold, hnew]
    simpa only [List.filter_append, filter_separatorTokens hcode, listTokens,
      filter_map_code hcode, List.nil_append, List.append_assoc] using hcomments
  · have hblank : ∀ b, isAsciiBlank b = true → (Token.code b).isSignificant = false :=
      fun _ => Token.isSignificant_code_of_isAsciiBlank
    have hmore : more.filter Token.isSignificant = items.filter Token.isSignificant :=
      hgains.filter_eq fun _ => rfl
    obtain ⟨hitems, hafter⟩ := List.append_eq_nil_iff.mp
      ((List.filter_append ..).symm.trans hquiet)
    have hbefore : (tokens source.body).filter Token.isSignificant =
        before.filter Token.isSignificant := by
      rw [← filter_solid hblank, hold, List.filter_append, hquiet, List.append_nil]
    have hbrace : ∀ more, (Token.code openBrace :: more).filter Token.isSignificant =
        .code openBrace :: more.filter Token.isSignificant := fun _ => rfl
    rw [hout, List.filter_append, source.filter_tokens_text hblank hends, hnew, hbody, hrest]
    simp only [List.filter_append, hbrace, List.filter_nil, filter_separatorTokens_isSignificant,
      filter_listTokens_isSignificant, hmore, hitems, hafter, hbefore, List.append_assoc,
      List.nil_append, List.append_nil, List.cons_append]

/-- The line comment behind the last property takes the carriage return of its new line break. -/
theorem tokens_rewire_bare_comment :
    let text := utf8 "@Component(\x7b\r\n a: ']' // a\n\x7d)"
    ∃ out, rewire text "N" "./n" .balanced = .rewired out ⟨0, 29, 11, 27⟩ .inserted ∧
      (tokens out).filter Token.isLiteral = [.literal (utf8 "'./n'"), .literal (utf8 "']'")] ∧
      GainsReturn [.lineComment (utf8 "// a")] ((tokens out).filter Token.isComment) ∧
      (tokens out).filter Token.isSignificant =
        (tokens (utf8 "import\x7bN\x7dfrom'./n';@Component(\x7ba:']',imports:[N]\x7d)")) := by
  intro text
  have hscan : scan text = some ⟨⟨0, 29, 11, 27⟩, none⟩ := by decide +kernel
  obtain ⟨out, before, body, after, hrewire, -, rfl, rfl, rfl, hliterals, hcomments,
    hsignificant⟩ := tokens_rewire_bare hscan
      ⟨⟨"N", "./n", by decide, by decide⟩, by decide, by decide⟩
  refine ⟨out, hrewire, hliterals.trans (by decide +kernel), ?_,
    hsignificant.trans (by decide +kernel)⟩
  have hold : (tokens text).filter Token.isComment = [.lineComment (utf8 "// a")] := by
    decide +kernel
  rwa [hold] at hcomments

end Balanced

end Extraction
