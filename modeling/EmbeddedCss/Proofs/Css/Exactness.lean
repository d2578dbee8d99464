import EmbeddedCss.Proofs.Css.Derivation

/-! # Nothing is lost in reading

Every lexeme is cut off the front of the text as it stands there, so that the pieces of whatever
is read, and what is left, make up the text. Besides this the derivations are shown to give items
of a certain form, which is all that printing needs to know about the grammar: comments have their
delimiters, parameters are not empty, and no item starts with a semicolon. -/

namespace EmbeddedCss.Css

/-! ## Lexemes -/

namespace Lexeme

open Scanner

theorem exact_groupTail (opener closer : Char) (depth : Nat) :
    Exact (groupTail opener closer depth) := by
  intro s
  fun_induction groupTail opener closer depth s with
  | case1 depth s l r h ih =>
    intro l' r' h'
    simp only [Option.map_eq_some_iff, Prod.mk.injEq, Prod.exists] at h'
    obtain ⟨l₁, _, h₁, rfl, rfl⟩ := h'
    rw [List.append_assoc, ih h₁, productive_shielded.1 h]
  | case2 => simp
  | case3 t => rintro l r ⟨⟩; rfl
  | case4 t depth _ ih =>
    intro l r h
    simp only [Option.map_eq_some_iff, Prod.mk.injEq, Prod.exists] at h
    obtain ⟨l₁, _, h₁, rfl, rfl⟩ := h
    simp [ih h₁]
  | case5 depth c t _ _ ih =>
    intro l r h
    simp only [Option.map_eq_some_iff, Prod.mk.injEq, Prod.exists] at h
    obtain ⟨l₁, _, h₁, rfl, rfl⟩ := h
    simp [ih h₁]

theorem productive_group (opener closer : Char) : Productive (group opener closer) := by
  refine productive_of_opening fun {s l r} h ↦ ?_
  unfold group at h
  split at h
  · cases h
  · rename_i c t
    split at h
    · exact ⟨[c], groupTail opener closer 0, t, by simp, exact_groupTail opener closer 0, rfl, h⟩
    · cases h

theorem productive_closed : Productive closed :=
  productive_shielded.orElse ((productive_group '(' ')').orElse (productive_group '[' ']'))

/-- A single character that opens no comment. -/
theorem productive_unlessComment (p : Char → Bool) :
    Productive fun s ↦ if opensComment s then none else Scanner.char p s := by
  have key : ∀ {s l r}, (if opensComment s then none else Scanner.char p s) = some (l, r) →
      Scanner.char p s = some (l, r) := by
    intro s l r h
    split at h
    · simp at h
    · exact h
  exact ⟨fun _ _ _ h ↦ exact_char p (key h), fun _ _ _ h ↦ (productive_char p).2 (key h)⟩

theorem productive_atom : Productive atom := productive_closed.orElse (productive_unlessComment _)

theorem exact_spaces : Exact spaces := exact_run _

theorem productive_prelude : Productive prelude := by
  refine productive_atom.seq fun s l r h ↦ ?_
  simp only [Option.some.injEq] at h
  simpa [h] using (exact_spaces.seq productive_atom.1).many s

theorem productive_property : Productive property :=
  (productive_comment.orElse (productive_unlessComment _)).many1

theorem exact_colon : Exact colon := exact_spaces.seq ((exact_char _).seq exact_spaces)

theorem productive_trailing : Productive trailing := (productive_char _).many1.followedBy _

theorem productive_atName : Productive atName := (productive_char _).many1

theorem exact_gap : Exact gap := exact_run _

theorem productive_loneComment : Productive loneComment := productive_comment.followedBy _

/-- A closed comment is its body between the delimiters. -/
theorem comment_eq_some {s l r : Text} (h : comment s = some (l, r)) :
    ∃ inner, l = '/' :: '*' :: inner ++ ['*', '/'] := by
  have tail : ∀ {s l r}, commentTail s = some (l, r) → ∃ inner, l = inner ++ ['*', '/'] := by
    intro s
    fun_induction commentTail s with
    | case1 => simp
    | case2 t => rintro l r ⟨⟩; exact ⟨[], rfl⟩
    | case3 c t _ ih =>
      intro l r h
      simp only [Option.map_eq_some_iff, Prod.mk.injEq, Prod.exists] at h
      obtain ⟨l', _, h, rfl, rfl⟩ := h
      obtain ⟨inner, rfl⟩ := ih h
      exact ⟨c :: inner, rfl⟩
  unfold comment at h
  split at h
  · simp only [Option.map_eq_some_iff, Prod.mk.injEq, Prod.exists] at h
    obtain ⟨l', _, h, rfl, rfl⟩ := h
    obtain ⟨inner, rfl⟩ := tail h
    exact ⟨inner, rfl⟩
  · simp at h

/-- A gap takes all the semicolons there are. -/
theorem head?_of_gap {s gap r : Text} (h : Lexeme.gap s = some (gap, r)) :
    r.head? ≠ some ';' := by
  simp only [Lexeme.gap, run, Option.some.injEq, Prod.mk.injEq] at h
  obtain ⟨-, rfl⟩ := h
  intro hr
  have hne : s.dropWhile (fun c ↦ Text.isSpace c || c == ';') ≠ [] := by
    rintro he
    simp [he] at hr
  have := List.head_dropWhile_not (fun c ↦ Text.isSpace c || c == ';') hne
  rw [List.head?_eq_some_head hne, Option.some.injEq] at hr
  simp [hr] at this

end Lexeme

/-! ## Derivations -/

theorem MayRead.append {a : Scanner} (ha : a.Exact) {s r : Text} {l : Option Text}
    (h : MayRead a s l r) : l.getD [] ++ r = s := by
  cases h with
  | some h => exact ha h
  | none => rfl

theorem ParamsRead.append {s r : Text} {params : Option (Text × Text)}
    (h : ParamsRead s params r) : paramsText params ++ r = s := by
  cases h with
  | some h₁ h₂ =>
    rw [paramsText, Option.elim_some, List.append_assoc, Lexeme.productive_prelude.1 h₂,
      Lexeme.exact_spaces h₁]
  | none => rfl

mutual

/-- The text of an item and what is left make up the text it was read from. -/
theorem Item.Reads.append {s r : Text} {i : Item} : Item.Reads s i r → i.text ++ r = s
  | .comment h => Lexeme.productive_loneComment.1 h
  | .rule h₁ h₂ hb => by
    have hs := Lexeme.productive_prelude.1 h₁
    rw [← Lexeme.exact_spaces h₂, ← hb.append] at hs
    simpa [Item.text] using hs
  | .bare h₁ h₂ => by
    have hs := Lexeme.productive_atName.1 h₁
    rw [← h₂.append] at hs
    simpa [Item.text] using hs
  | .statement h₁ h₂ h₃ => by
    have hs := Lexeme.productive_atName.1 h₁
    rw [← h₂.append, ← Lexeme.exact_spaces h₃] at hs
    simpa [Item.text] using hs
  | .atBlock h₁ h₂ h₃ hb => by
    have hs := Lexeme.productive_atName.1 h₁
    rw [← h₂.append, ← Lexeme.exact_spaces h₃, ← hb.append] at hs
    simpa [Item.text] using hs
  | .decl h₁ h₂ h₃ h₄ => by
    have hs := Lexeme.productive_property.1 h₁
    rw [← Lexeme.exact_colon h₂, ← h₃.append Lexeme.productive_prelude.1,
      ← h₄.append Lexeme.productive_trailing.1] at hs
    simpa [Item.text] using hs

/-- The text of a body and what is left make up the text it was read from. -/
theorem Body.Reads.append {s r : Text} {b : Body} : Body.Reads s b r → b.text ++ r = s
  | .done h => Lexeme.exact_gap h
  | .item h₁ h₂ h₃ => by
    have hs := Lexeme.exact_gap h₁
    rw [← h₂.append, ← h₃.append] at hs
    simpa [Body.text] using hs

end

/-! ## The form of items -/

/-- Parameters that are there are not empty. -/
def ParamsWritten (params : Option (Text × Text)) : Prop := ∀ p ∈ params, p.2 ≠ []

mutual

/-- An item has the form that the grammar gives it. -/
def Item.WellFormed : Item → Prop
  | .comment lexeme => ∃ inner, lexeme = '/' :: '*' :: inner ++ ['*', '/']
  | .rule selector _ body => selector ≠ [] ∧ selector.head? ≠ some ';' ∧ body.WellFormed
  | .statement _ params _ => ParamsWritten params
  | .atBlock _ params _ body => ParamsWritten params ∧ body.WellFormed
  | .decl property _ _ => property ≠ [] ∧ property.head? ≠ some ';'

/-- The items of a body have the form that the grammar gives them. -/
def Body.WellFormed : Body → Prop
  | .done _ => True
  | .item _ item rest => item.WellFormed ∧ rest.WellFormed

end

theorem ParamsRead.written {s r : Text} {params : Option (Text × Text)}
    (h : ParamsRead s params r) : ParamsWritten params := by
  cases h with
  | some _ h₂ =>
    rintro p ⟨⟩
    exact Lexeme.productive_prelude.2 h₂
  | none => rintro p ⟨⟩

/-- A lexeme that is not empty starts like the text it was read from. -/
theorem head?_of_productive {a : Scanner} (ha : a.Productive) {s l r : Text}
    (h : a s = some (l, r)) : l.head? = s.head? := by
  rw [← ha.1 h, List.head?_append, Option.or_of_isSome (List.isSome_head?.2 (ha.2 h))]

mutual

theorem Item.Reads.wellFormed {s r : Text} {i : Item} (hs : s.head? ≠ some ';') :
    Item.Reads s i r → i.WellFormed
  | .comment h => Lexeme.comment_eq_some (Scanner.of_followedBy h).1
  | .rule h₁ _ hb => by
    refine ⟨Lexeme.productive_prelude.2 h₁, ?_, hb.wellFormed⟩
    rwa [head?_of_productive Lexeme.productive_prelude h₁]
  | .bare _ h₂ => h₂.written
  | .statement _ h₂ _ => h₂.written
  | .atBlock _ h₂ _ hb => ⟨h₂.written, hb.wellFormed⟩
  | .decl h₁ _ _ _ => by
    refine ⟨Lexeme.productive_property.2 h₁, ?_⟩
    rwa [head?_of_productive Lexeme.productive_property h₁]

/-- What is read has the form that the grammar gives it. -/
theorem Body.Reads.wellFormed {s r : Text} {b : Body} : Body.Reads s b r → b.WellFormed
  | .done _ => trivial
  | .item h₁ h₂ h₃ => ⟨h₂.wellFormed (Lexeme.head?_of_gap h₁), h₃.wellFormed⟩

end

/-- A well-formed item is not empty and starts with no semicolon. -/
theorem Item.WellFormed.text_start {i : Item} (h : i.WellFormed) :
    i.text ≠ [] ∧ i.text.head? ≠ some ';' := by
  cases i with
  | comment lexeme =>
    obtain ⟨inner, rfl⟩ := h
    simp [Item.text]
  | rule selector between body =>
    refine ⟨by simp [Item.text], ?_⟩
    rw [Item.text, List.append_assoc, List.append_assoc, List.head?_append,
      Option.or_of_isSome (List.isSome_head?.2 h.1)]
    exact h.2.1
  | statement name params between => simp [Item.text]
  | atBlock name params between body => simp [Item.text]
  | decl property colon value =>
    refine ⟨by simp [Item.text, h.1], ?_⟩
    rw [Item.text, List.append_assoc, List.head?_append,
      Option.or_of_isSome (List.isSome_head?.2 h.1)]
    exact h.2

end EmbeddedCss.Css
