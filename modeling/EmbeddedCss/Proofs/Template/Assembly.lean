import EmbeddedCss.Proofs.Host.Balanced
import EmbeddedCss.Proofs.Template.Walk

/-! # Taking apart what was put together

A template can be put together from any texts, but it can be taken apart again only if its pieces
keep to themselves: a literal opens no interpolation, and the code of an interpolation is balanced.

The main statement is that this is enough. The body of such a template splits into the pieces that
it was put together from, and a walk over it finds the interpolations where the template has
them. -/

namespace EmbeddedCss.Template

open Host

/-- Text that opens no interpolation and hides nothing behind it. -/
inductive IsLiteral : Text → Prop
  | nil : IsLiteral []
  | char {c : Char} {t : Text} :
      c ≠ '\\' → (c = '$' → t.head? ≠ some '{') → IsLiteral t → IsLiteral (c :: t)
  /-- A backslash hides any character. -/
  | escape {c : Char} {t : Text} : IsLiteral t → IsLiteral ('\\' :: c :: t)

/-! ## Splitting -/

theorem after_nil (x : Except Text Template) : after [] (prepend []) x = x := by
  cases x <;> rfl

theorem after_append (s t : Text) (x : Except Text Template) :
    after s (prepend s) (after t (prepend t) x) = after (s ++ t) (prepend (s ++ t)) x := by
  cases x <;> simp [after, prepend]

/-- A literal in front of a body becomes part of the first literal of the body. -/
theorem IsLiteral.split_append {l : Text} (h : IsLiteral l) {s : Text}
    (hs : s.head? ≠ some '{') : split (l ++ s) = after l (prepend l) (split s) := by
  induction h with
  | nil => exact (after_nil _).symm
  | @char c t hescape hdollar _ ih =>
    rw [List.cons_append, split_cons, ih, after_append, List.singleton_append]
    · intro d u hc
      exact absurd hc hescape
    · intro u hc hu
      -- the brace can neither stand in the literal nor follow it
      have hhead : (t ++ s).head? = some '{' := by rw [hu]; rfl
      cases t with
      | nil => exact hs hhead
      | cons d t => exact hdollar hc hhead
  | @escape c t _ ih =>
    rw [List.cons_append, List.cons_append, split, ih, after_append, List.cons_append,
      List.singleton_append]

/-- An interpolation of balanced code in front of a body becomes an interpolation of its own. -/
theorem split_interpolation_append {code : Text} (h : Balanced code) (s : Text) :
    split (interpolation code ++ s) =
      after (interpolation code) (interpolate code) (split s) := by
  have hclose := h.close_eq s
  have htext : interpolation code ++ s = '$' :: '{' :: (code ++ '}' :: s) := by
    simp [interpolation]
  rw [htext, split_of_close hclose, List.dropLast_concat]
  rfl

/-- Taking a template apart undoes putting it together from literals and balanced code. -/
theorem split_text {t : Template} (hliterals : ∀ l ∈ t.literals, IsLiteral l)
    (hcodes : ∀ c ∈ t.codes, Balanced c) : split t.text = .ok t := by
  obtain ⟨head, tail⟩ := t
  induction tail generalizing head with
  | nil =>
    have hhead : IsLiteral head := hliterals head (List.mem_cons_self ..)
    have hsplit := hhead.split_append (s := []) (by simp)
    rw [split] at hsplit
    simpa [text, after, prepend] using hsplit
  | cons p tail ih =>
    obtain ⟨code, literal⟩ := p
    have hhead : IsLiteral head := hliterals head (List.mem_cons_self ..)
    have hcode : Balanced code := hcodes code (List.mem_cons_self ..)
    have htail : split (text ⟨literal, tail⟩) = .ok ⟨literal, tail⟩ :=
      ih literal (fun l hl ↦ hliterals l (List.mem_cons_of_mem _ hl))
        fun c hc ↦ hcodes c (List.mem_cons_of_mem _ hc)
    have htext : text ⟨head, (code, literal) :: tail⟩ =
        head ++ (interpolation code ++ text ⟨literal, tail⟩) := by
      simp [text]
    rw [htext, hhead.split_append (by simp [interpolation]), split_interpolation_append hcode,
      htail]
    simp [after, prepend, interpolate]

/-! ## Putting together -/

/-- Literals and codes whose numbers go together make a template of these pieces. -/
theorem exists_ofPieces {literals codes : List Text}
    (hlength : literals.length = codes.length + 1) :
    ∃ t, ofPieces literals codes = .ok t ∧ t.literals = literals ∧ t.codes = codes := by
  cases literals with
  | nil => simp at hlength
  | cons head rest =>
    have hrest : rest.length = codes.length := by simpa using hlength
    refine ⟨⟨head, codes.zip rest⟩, ?_, ?_, ?_⟩
    · rw [ofPieces, ofPieces?, if_pos hrest]
    · rw [literals, List.map_snd_zip (Nat.le_of_eq hrest)]
    · rw [Template.codes, List.map_fst_zip (Nat.le_of_eq hrest.symm)]

theorem spansAt_zero (t : Template) : spansAt 0 t = t.interpolations.map Located.span := rfl

/-- Taking apart undoes putting together: a template of literals and balanced code is what its body
splits into. The walk over the body notes the spans that the template gives its interpolations, and
these spans cut the pieces out of the body. -/
theorem ofText_text_of_ofPieces {literals codes : List Text}
    (hlength : literals.length = codes.length + 1) (hliterals : ∀ l ∈ literals, IsLiteral l)
    (hcodes : ∀ c ∈ codes, Balanced c) :
    ∃ t, ofPieces literals codes = .ok t ∧ t.literals = literals ∧ t.codes = codes ∧
      ofText t.text = .ok t ∧
      walk false 0 0 t.text = .ok (t.interpolations.map Located.span, Text.size t.text) ∧
      cutOut t.text 0 (Text.size t.text) (t.interpolations.map Located.span) = t := by
  obtain ⟨t, ht, rfl, rfl⟩ := exists_ofPieces hlength
  have hsplit := split_text hliterals hcodes
  have htext : ofText t.text = .ok t := by rw [ofText, hsplit]
  refine ⟨t, ht, rfl, rfl, htext, ?_, ?_⟩
  · rw [walk_eq_ofText, htext, ← spansAt_zero]
    rfl
  · have hstands : t.text.StandsAt 0 (t.text ++ []) := by
      rw [List.append_nil]
      exact Text.standsAt_zero _
    exact cutOut_spansAt hstands (Nat.zero_add _).symm

/-- A literal that ends in a dollar sign behind an escaped one, and code with closing braces inside
of a string and of a comment, the latter in a template literal of its own. -/
theorem ofText_text_of_nested_code : ∃ t,
    ofPieces ["\\$\x7b$".toList, "`".toList] ["\x7b'\x7d'\x7d`$\x7b/*\x7d*/\x7d`".toList] = .ok t ∧
      t.text = "\\$\x7b$$\x7b\x7b'\x7d'\x7d`$\x7b/*\x7d*/\x7d`\x7d`".toList ∧
      ofText t.text = .ok t ∧ walk false 0 0 t.text = .ok ([⟨4, 22⟩], 23) := by
  have hhead : IsLiteral "\\$\x7b$".toList :=
    .escape (.char (by decide) (by decide) (.char (by decide) (by decide) .nil))
  have hliterals : ∀ l ∈ ["\\$\x7b$".toList, "`".toList], IsLiteral l := by
    simpa using ⟨hhead, .char (by decide) (by decide) .nil⟩
  have hcode : Balanced "\x7b'\x7d'\x7d`$\x7b/*\x7d*/\x7d`".toList :=
    .braces (.string (.inl rfl) (.char (by decide) (by decide) (by decide) .nil) .nil)
      (.template (.interpolation (.blockComment (s := ['\x7d']) (by decide) .nil) .nil) .nil)
  have hcodes : ∀ c ∈ ["\x7b'\x7d'\x7d`$\x7b/*\x7d*/\x7d`".toList], Balanced c := by
    simpa using hcode
  obtain ⟨t, ht, -, -, htext, hwalk, -⟩ := ofText_text_of_ofPieces rfl hliterals hcodes
  obtain rfl := Except.ok.inj ht
  exact ⟨_, rfl, by decide, htext, hwalk⟩

end EmbeddedCss.Template
