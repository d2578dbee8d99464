import EmbeddedCss.Proofs.Host.Balanced
import EmbeddedCss.Proofs.Host.Collection
import EmbeddedCss.Proofs.Host.Delimiting

/-! # What an unclosed literal is blamed on

A template literal or an interpolation that is never closed leaves everything open that it stands
in, and what opens inside of it may be open too. An error names the outermost culprit. In a template
body that is the interpolation behind which the body cannot be taken apart; in a file it is the
interpolation of an outermost literal, or else that literal.

The main statement says so with the stack of open regions: at the place of an error nothing is open,
or only the literal that the interpolation stands in. On the way it is shown that the error of a
file is the one that the walk over the unclosed literal ends with where the literal stands. -/

namespace EmbeddedCss

open Host Region

/-! ## Bodies that do not split -/

namespace Template

/-- A body does not split only if what follows its start does not. -/
theorem exists_of_after_eq_error {s before : Text} {f : Template → Template}
    {r : Except Text Template} (h : after s f r = .error before) :
    ∃ u, r = .error u ∧ before = s ++ u := by
  cases r with
  | ok t => simp [after] at h
  | error u => exact ⟨u, rfl, by simpa [after] using h.symm⟩

/-- A body that does not split has an interpolation that is never closed, and what stands in front
of that splits. -/
theorem exists_of_split_eq_error {s before : Text} (h : split s = .error before) :
    (∃ code, s = before ++ '$' :: '{' :: code ∧ close [.code] code = none) ∧
      ∃ t, split before = .ok t := by
  fun_induction split s generalizing before with
  | case1 => cases h
  | case2 c s ih =>
    obtain ⟨u, hu, rfl⟩ := exists_of_after_eq_error h
    obtain ⟨⟨code, rfl, hcode⟩, t, ht⟩ := ih hu
    refine ⟨⟨code, rfl, hcode⟩, t.prepend ['\\', c], ?_⟩
    rw [List.cons_append, List.singleton_append, split, ht, after]
  | case3 s hcode =>
    obtain rfl : [] = before := by simpa using h
    exact ⟨⟨s, rfl, hcode⟩, ⟨[], []⟩, by rw [split]⟩
  | case4 s inner rest hinner ih =>
    obtain ⟨u, hu, rfl⟩ := exists_of_after_eq_error h
    obtain ⟨⟨code, rfl, hcode⟩, t, ht⟩ := ih hu
    refine ⟨⟨code, ?_, hcode⟩, t.interpolate inner.dropLast, ?_⟩
    · rw [← exact_close _ hinner]
      simp
    · rw [List.cons_append, List.cons_append, split_of_close (close_append_of_close hinner u), ht,
        after]
  | case5 c s hescape hopen ih =>
    obtain ⟨u, hu, rfl⟩ := exists_of_after_eq_error h
    obtain ⟨⟨code, rfl, hcode⟩, t, ht⟩ := ih hu
    refine ⟨⟨code, rfl, hcode⟩, t.prepend [c], ?_⟩
    rw [List.singleton_append, split_cons, ht, after]
    · rintro d v hc rfl
      exact hescape d _ hc rfl
    · rintro v hc rfl
      exact hopen _ hc rfl

/-- In front of the interpolation that keeps a literal from being closed, only the literal is
open. -/
theorem openAfter_of_split_eq_error {s before : Text} (h : split s = .error before)
    (hclose : close [.template] s = none) {r : Text} (hs : s = before ++ r) :
    openAfter [.template] before r = [.template] := by
  fun_induction split s generalizing before with
  | case1 => cases h
  | case2 c s ih =>
    obtain ⟨u, hu, rfl⟩ := exists_of_after_eq_error h
    obtain rfl : s = u ++ r := by simpa using hs
    change openAfter [.template] u r = [.template]
    exact ih hu (by simpa [close_template_escape] using hclose) rfl
  | case3 =>
    obtain rfl : [] = before := by simpa using h
    rfl
  | case4 s inner rest hinner ih =>
    obtain ⟨u, hu, rfl⟩ := exists_of_after_eq_error h
    have hinner' : inner ++ rest = s := exact_close _ hinner
    obtain rfl : rest = u ++ r := by simpa [← hinner'] using hs
    have hrest : close [.template] (u ++ r) = none := by
      simpa [close_template_interpolation hinner] using hclose
    -- the braces are closed again, above the literal
    have hopen : openAfter [.template] ('$' :: '{' :: inner) (u ++ r) = [.template] :=
      openAfter_append_of_close hinner [.template]
    rw [openAfter_append, hopen, ih hu hrest rfl]
  | case5 c s hescape hopen ih =>
    obtain ⟨u, hu, rfl⟩ := exists_of_after_eq_error h
    obtain rfl : s = u ++ r := by simpa using hs
    have htick : c ≠ '`' := by
      rintro rfl
      simp [close_cons_cons, next] at hclose
    have hc : c ≠ '\\' := by
      rintro rfl
      cases hur : u ++ r with
      | nil => rw [hur, split] at hu; cases hu
      | cons d v => exact hescape d v rfl hur
    have hnext := next_template_eq_self htick hc hopen
    rw [close_cons_cons, hnext] at hclose
    rw [List.singleton_append, openAfter_cons, step, hnext]
    exact ih hu (by simpa using hclose) rfl

end Template

/-! ## Files that cannot be scanned -/

namespace Host

/-- A literal that is never closed takes the rest of the text. -/
theorem close_of_tokens_eq_unclosed {s tail : Text} {ts : List Token}
    (h : tokens s = .unclosed tail :: ts) : s = '`' :: tail ∧ close [.template] tail = none := by
  fun_induction tokens s with
  | case6 s hclose =>
    obtain ⟨⟨rfl⟩, -⟩ := List.cons.inj h
    exact ⟨rfl, hclose⟩
  | _ => simp at h

/-- The error for a literal that is never closed is the one that the walk over its body in the file
ends with. -/
theorem walk_eq_unclosedError {tail : Text} (hclose : close [.template] tail = none)
    (offset : Nat) :
    Template.walk true (offset + 1) (offset + 1) tail = .error (unclosedError offset tail) := by
  rw [Template.walk_of_not_closed _ _ fun _ ↦ hclose, unclosedError]
  cases Template.split tail with
  | error before => rfl
  | ok t => rfl

/-- The only error of a collection is that for a literal which is never closed. -/
theorem exists_unclosed_of_collect {o : Options} {source : Text} {off : Option Nat}
    {ts : List Token} {e : TemplateError} (before : List Token)
    (hts : tokens source = before ++ ts)
    (h : collect o (before.flatMap Token.text).reverse off ts = .error e) :
    ∃ ts₁ tail ts₂, tokens source = ts₁ ++ .unclosed tail :: ts₂ ∧
      e = unclosedError (Text.size (ts₁.flatMap Token.text)) tail := by
  induction ts generalizing before off with
  | nil => cases h
  | cons token rest ih =>
    have hbehind : tokens source = (before ++ [token]) ++ rest := by
      rw [hts, List.append_assoc, List.singleton_append]
    have hseen : token.text.reverse ++ (before.flatMap Token.text).reverse =
        ((before ++ [token]).flatMap Token.text).reverse := by
      simp
    cases token with
    | template body =>
      rw [collect_template, hseen] at h
      cases hlater : collect o ((before ++ [Token.template body]).flatMap Token.text).reverse off
          rest with
      | error e' =>
        rw [hlater] at h
        obtain rfl : e' = e := Except.error.inj h
        exact ih _ hbehind hlater
      | ok later =>
        -- the body of a literal that is closed can be taken apart
        obtain ⟨t, ht⟩ := exists_ofText_of_tokens hts
        rw [hlater] at h
        change (if _ then _ else _) = _ at h
        split at h
        · rw [ht] at h
          cases h
        · cases h
    | unclosed tail =>
      obtain rfl := Except.error.inj h
      exact ⟨before, tail, rest, hts, by rw [Text.size_reverse]⟩
    | code | string | lineComment | blockComment =>
      rw [collect_other rest (by simp) (by simp), hseen] at h
      exact ih _ hbehind h

/-- A file that cannot be scanned holds a literal which is never closed. -/
theorem exists_unclosed_of_scan {o : Options} {source : Text} {e : TemplateError}
    (h : scan o source = .error e) : ∃ ts₁ tail ts₂,
      tokens source = ts₁ ++ .unclosed tail :: ts₂ ∧
        e = unclosedError (Text.size (ts₁.flatMap Token.text)) tail := by
  simp only [scan] at h
  split at h
  · cases h
  · exact exists_unclosed_of_collect [] rfl h

/-- A scan that fails does so with the walk over a literal that is never closed and stands in
nothing else. -/
theorem exists_walk_of_scan {o : Options} {source : Text} {e : TemplateError}
    (h : scan o source = .error e) : ∃ before tail, source = before ++ '`' :: tail ∧
      openAfter [] before ('`' :: tail) = [] ∧ close [.template] tail = none ∧
      e = unclosedError (Text.size before) tail ∧
      Template.walk true (Text.size before + 1) (Text.size before + 1) tail = .error e := by
  obtain ⟨ts₁, tail, ts₂, hts, rfl⟩ := exists_unclosed_of_scan h
  obtain ⟨htokens, hopen⟩ := tokens_append hts
  obtain ⟨hrest, hclose⟩ := close_of_tokens_eq_unclosed htokens
  have hsource : source = ts₁.flatMap Token.text ++ '`' :: tail := by
    rw [← hrest, ← List.flatMap_append, ← hts, flatMap_text_tokens]
  rw [hrest] at hopen
  exact ⟨_, tail, hsource, hopen (by simp), hclose, rfl, walk_eq_unclosedError hclose _⟩

end Host

/-- An error names something in a file that is never closed and stands in nothing else, or only in
an outermost literal. Its span reaches from there to the end of the file. -/
inductive TemplateError.IsOutermost (source : Text) : TemplateError → Prop
  /-- Where the backtick of the literal stands, nothing is open. The interpolations of the literal
  are closed. -/
  | template {before tail : Text} {t : Template} :
      source = before ++ '`' :: tail → openAfter [] before ('`' :: tail) = [] →
      close [.template] tail = none → Template.ofText tail = .ok t →
      IsOutermost source (.unclosedTemplate ⟨Text.size before, Text.size source⟩)
  /-- Where the interpolation starts, only the literal around it is open. -/
  | interpolation {before code : Text} :
      source = before ++ '$' :: '{' :: code →
      openAfter [] before ('$' :: '{' :: code) = [.template] → close [.code] code = none →
      IsOutermost source (.unclosedInterpolation ⟨Text.size before, Text.size source⟩)

/-- The error for a literal that is never closed names the literal or its first interpolation that
is not closed either. -/
theorem isOutermost_unclosedError {source before tail : Text}
    (hsource : source = before ++ '`' :: tail) (hopen : openAfter [] before ('`' :: tail) = [])
    (hclose : close [.template] tail = none) :
    (unclosedError (Text.size before) tail).IsOutermost source := by
  have hsize : Text.size before + 1 + Text.size tail = Text.size source := by
    rw [hsource, Text.size_append, Text.size_cons, Nat.add_assoc]
    rfl
  rw [unclosedError, hsize]
  cases hsplit : Template.split tail with
  | ok t => exact .template hsource hopen hclose (by rw [Template.ofText, hsplit])
  | error literal =>
    obtain ⟨⟨code, rfl, hcode⟩, -⟩ := Template.exists_of_split_eq_error hsplit
    have hstart : Text.size before + 1 + Text.size literal =
        Text.size (before ++ '`' :: literal) := by
      rw [Text.size_append, Text.size_cons, Nat.add_assoc]
      rfl
    have hliteral := Template.openAfter_of_split_eq_error hsplit hclose rfl
    dsimp only
    rw [hstart]
    refine .interpolation ?_ ?_ hcode
    · rw [hsource, List.append_assoc, List.cons_append]
    · rw [openAfter_append, List.cons_append, hopen, openAfter_cons]
      exact hliteral

/-- **Errors name the outermost culprit.** A template body that cannot be taken apart has an
interpolation that is never closed; the error reaches from there to the end of the body, and what
stands in front of it can be taken apart. A file that cannot be scanned has a literal or an
interpolation that is never closed, and the error names one that stands in no other
interpolation. -/
theorem outermost_of_error :
    (∀ (body : Text) (e : TemplateError), Template.ofText body = .error e →
      ∃ before code t, body = before ++ '$' :: '{' :: code ∧ close [.code] code = none ∧
        e = .unclosedInterpolation ⟨Text.size before, Text.size body⟩ ∧
        Template.ofText before = .ok t) ∧
    ∀ (o : Options) (source : Text) (e : TemplateError), scan o source = .error e →
      e.IsOutermost source := by
  constructor
  · intro body e h
    rw [Template.ofText] at h
    split at h
    · cases h
    · rename_i before hsplit
      obtain ⟨⟨code, hbody, hcode⟩, t, ht⟩ := Template.exists_of_split_eq_error hsplit
      exact ⟨before, code, t, hbody, hcode, (Except.error.inj h).symm, by rw [Template.ofText, ht]⟩
  · intro o source e h
    obtain ⟨before, tail, hsource, hopen, hclose, rfl, -⟩ := exists_walk_of_scan h
    exact isOutermost_unclosedError hsource hopen hclose

/-- An interpolation inside of a literal inside of an interpolation: none of the three is closed,
and the outermost interpolation is to blame. Where the interpolations are closed, it is the literal.
-/
theorem outermost_of_error_nested :
    Template.ofText "a$\x7b`$\x7b".toList = .error (.unclosedInterpolation ⟨1, 6⟩) ∧
    (∃ before code t, "a$\x7b`$\x7b".toList = before ++ '$' :: '{' :: code ∧
      close [.code] code = none ∧ Text.size before = 1 ∧ Template.ofText before = .ok t) ∧
    scan {} "css`a$\x7b`$\x7b".toList = .error (.unclosedInterpolation ⟨5, 10⟩) ∧
    TemplateError.IsOutermost "css`a$\x7b`$\x7b".toList (.unclosedInterpolation ⟨5, 10⟩) ∧
    scan {} "css`$\x7b`$\x7b\x7d`\x7d".toList = .error (.unclosedTemplate ⟨3, 12⟩) ∧
    TemplateError.IsOutermost "css`$\x7b`$\x7b\x7d`\x7d".toList (.unclosedTemplate ⟨3, 12⟩) := by
  have hbody : Template.ofText "a$\x7b`$\x7b".toList = .error (.unclosedInterpolation ⟨1, 6⟩) := by
    decide +kernel
  have hinterpolation : scan {} "css`a$\x7b`$\x7b".toList =
      .error (.unclosedInterpolation ⟨5, 10⟩) := by
    decide +kernel
  have hliteral : scan {} "css`$\x7b`$\x7b\x7d`\x7d".toList =
      .error (.unclosedTemplate ⟨3, 12⟩) := by
    decide +kernel
  obtain ⟨before, code, t, htext, hcode, he, ht⟩ := outermost_of_error.1 _ _ hbody
  obtain ⟨hstart, -⟩ := Span.mk.inj (TemplateError.unclosedInterpolation.inj he)
  exact ⟨hbody, ⟨before, code, t, htext, hcode, hstart.symm, ht⟩,
    hinterpolation, outermost_of_error.2 _ _ _ hinterpolation,
    hliteral, outermost_of_error.2 _ _ _ hliteral⟩

end EmbeddedCss
