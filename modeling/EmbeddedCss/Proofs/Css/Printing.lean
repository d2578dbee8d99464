import EmbeddedCss.Css.Printer
import EmbeddedCss.Proofs.Css.Exactness

/-! # Printing what was read

A tree that was read is printed in the pieces it was read in: the printer adds nothing of its own
but semicolons. This file says which chunks these are in terms of the concrete syntax, without
going through layout and tree, and shows that the tree of a body prints exactly these. -/

namespace EmbeddedCss.Css

/-! ## Chunks of the concrete syntax -/

/-- The semicolon that ends a node, where it is printed. -/
def terminator (printed : Bool) : List Text := if printed then [[';']] else []

@[simp] theorem terminator_true : terminator true = [[';']] := rfl

@[simp] theorem terminator_false : terminator false = [] := rfl

/-- The chunks of the parameters of an at-rule. -/
def paramsChunks (params : Option (Text × Text)) : List Text :=
  params.elim [] fun p ↦ chunk p.1 ++ chunk p.2

/-- The chunks of a value: its mark of importance is a chunk of its own. -/
def valueChunks (written : Text) : List Text :=
  match cutImportant written with
  | some (value, mark) => chunk value ++ chunk mark
  | none => chunk written

mutual

/-- The chunks that an item is printed in, without the semicolon that ends it. -/
def Item.chunks : Item → List Text
  | .comment lexeme => [lexeme]
  | .rule selector between body =>
    chunk selector ++ chunk between ++ [['{']] ++ body.chunks false ++ [['}']]
  | .statement name params between =>
    [['@']] ++ chunk name ++ paramsChunks params ++ chunk (between.getD [])
  | .atBlock name params between body =>
    [['@']] ++ chunk name ++ paramsChunks params ++ chunk between ++ [['{']] ++
      body.chunks false ++ [['}']]
  | .decl property colon value => chunk property ++ chunk colon ++ valueChunks value

/-- The chunks that a body is printed in. If the item in front of it is `unended`, it starts with
the semicolon that ends that item; in front of another item there always is one. -/
def Body.chunks (unended : Bool) : Body → List Text
  | .done gap =>
    terminator (cutTerminator unended gap).2 ++ chunk (cutTerminator unended gap).1
  | .item gap item rest =>
    terminator unended ++ chunk (cutTerminator unended gap).1 ++ item.chunks ++
      rest.chunks item.endsInSemicolon

end

/-! ## Values -/

/-- Without its trailing blanks a text is a part of its front. -/
theorem trimEnd_isPrefix (t : Text) : Text.trimEnd t <+: t :=
  ⟨Text.blankEnd t, Text.trimEnd_append_blankEnd t⟩

/-- The value and the mark of importance make up what was written. -/
theorem append_of_cutImportant {written value mark : Text}
    (h : cutImportant written = some (value, mark)) : value ++ mark = written := by
  simp only [cutImportant, Option.ite_none_right_eq_some, Option.some.injEq, Prod.mk.injEq] at h
  obtain ⟨-, rfl, rfl⟩ := h
  refine List.prefix_iff_eq_append.1 ?_
  exact (trimEnd_isPrefix _).trans ((List.take_prefix _ _).trans (trimEnd_isPrefix _))

/-- A value is printed as it was written. -/
@[simp] theorem flatten_valueChunks (written : Text) : (valueChunks written).flatten = written := by
  unfold valueChunks
  split
  · rename_i value mark h
    simpa using append_of_cutImportant h
  · exact flatten_chunk written

@[simp] theorem flatten_paramsChunks (params : Option (Text × Text)) :
    (paramsChunks params).flatten = paramsText params := by
  cases params <;> simp [paramsChunks, paramsText]

/-- A declaration prints its property, its colon and its value as written. -/
theorem chunks_ofValue (prop : Text) (layout : Layout) (source : Span) (written : Text)
    (ended : Bool) (hvalue : layout.value = none) :
    (Node.ofValue prop layout source written).chunks ended =
      chunk prop ++ chunk (layout.between.getD defaultColon) ++ valueChunks written ++
        terminator ended := by
  unfold Node.ofValue valueChunks
  cases hcut : cutImportant written with
  | some p => simp [Node.chunks, hvalue, terminator]
  | none =>
    by_cases hclean : Text.trimEnd written = written
    · simp [Node.chunks, hclean, terminator]
    · simp [Node.chunks, hclean, terminator]

/-- A comment prints its lexeme, the blanks inside included. -/
theorem chunks_ofComment (inner : Text) (layout : Layout) (source : Span) (ended : Bool) :
    (Node.ofComment ('/' :: '*' :: inner ++ ['*', '/']) layout source).chunks ended =
      ['/' :: '*' :: inner ++ ['*', '/']] := by
  have hinner : (List.drop 2 ('/' :: '*' :: inner ++ ['*', '/'])).dropLast.dropLast = inner := by
    simp [List.dropLast_append_of_ne_nil]
  have hpadded : inner.padded.leading ++ inner.padded.core ++ inner.padded.trailing = inner :=
    Text.text_padded inner
  simp only [Node.ofComment, Node.chunks, hinner, Option.getD_some]
  rw [List.append_assoc ['/', '*'], List.append_assoc ['/', '*'], hpadded]
  rfl

/-! ## The tree prints these chunks -/

theorem paramsChunks_eq {params : Option (Text × Text)} (h : ParamsWritten params) :
    (if params.elim [] Prod.snd = [] then []
      else chunk ((params.map Prod.fst).getD [' ']) ++ chunk (params.elim [] Prod.snd)) =
      paramsChunks params := by
  cases params with
  | none => rfl
  | some p => simp [paramsChunks, h p rfl]

@[simp] theorem endsInSemicolon_toNode (start : Nat) (before : Text) (i : Item) :
    (i.toNode start before).endsInSemicolon = i.endsInSemicolon := by
  cases i with
  | decl property colon value =>
    simp only [Item.toNode, Node.ofValue]
    split <;> rfl
  | _ => rfl

@[simp] theorem before_toNode (start : Nat) (before : Text) (i : Item) :
    (i.toNode start before).layout.before = some before := by
  cases i with
  | decl property colon value =>
    simp only [Item.toNode, Node.ofValue]
    split <;> rfl
  | _ => rfl

mutual

/-- The node of an item prints the chunks of the item, and a semicolon if that is asked for. -/
theorem Item.WellFormed.chunks_toNode : {i : Item} → i.WellFormed → (start : Nat) →
    (before : Text) → (ended : Bool) →
    (i.toNode start before).chunks ended = i.chunks ++ terminator (i.endsInSemicolon && ended)
  | .comment _, ⟨inner, hl⟩, start, before, ended => by
    subst hl
    rw [Item.toNode, chunks_ofComment]
    rfl
  | .rule selector between body, ⟨_, _, hb⟩, start, before, ended => by
    have ih := hb.chunks_contents (start + Text.size selector + Text.size between + 1) false
      defaultBefore
    rw [Bool.false_and, terminator_false, List.nil_append] at ih
    simp only [Item.toNode, Node.chunks, Option.getD_some, Item.chunks, ← ih, List.append_assoc,
      Item.endsInSemicolon, Bool.false_and, terminator_false, List.append_nil]
  | .statement name params between, h, start, before, ended => by
    simp only [Item.toNode, Node.chunks, paramsChunks_eq h, Item.chunks, Item.endsInSemicolon,
      Bool.true_and, terminator]
  | .atBlock name params between body, ⟨hp, hb⟩, start, before, ended => by
    have ih := hb.chunks_contents
      (start + 1 + Text.size name + Text.size (paramsText params) + Text.size between + 1) false
      defaultBefore
    rw [Bool.false_and, terminator_false, List.nil_append] at ih
    simp only [Item.toNode, Node.chunks, paramsChunks_eq hp, Option.getD_some, Item.chunks, ← ih,
      List.append_assoc, Item.endsInSemicolon, Bool.false_and, terminator_false, List.append_nil]
  | .decl property colon value, _, start, before, ended => by
    rw [Item.toNode, chunks_ofValue _ _ _ _ _ rfl]
    rfl

/-- The contents of a body print the chunks of the body: the semicolon that ends the item in front,
if one is printed, then the nodes, then the gap after them. -/
theorem Body.WellFormed.chunks_contents : {b : Body} → b.WellFormed → (offset : Nat) →
    (unended : Bool) → (before : Text) →
    terminator (unended && (!(b.contents offset unended).nodes.isEmpty ||
        (b.contents offset unended).semicolon)) ++
      Node.bodyChunks (b.contents offset unended).semicolon before
          (b.contents offset unended).nodes ++
        chunk (b.contents offset unended).after = b.chunks unended
  | .done gap, _, offset, unended, before => by
    cases unended with
    | false => simp [Body.contents, Body.chunks, Node.bodyChunks, cutTerminator]
    | true => simp [Body.contents, Body.chunks, Node.bodyChunks]
  | .item gap i rest, ⟨hi, hr⟩, offset, unended, before => by
    have ih := hr.chunks_contents (offset + Text.size gap + Text.size i.text) i.endsInSemicolon
      defaultBefore
    simp only [Body.contents, Body.chunks, Node.bodyChunks, hi.chunks_toNode, ← ih,
      endsInSemicolon_toNode, before_toNode, Option.getD_some, List.isEmpty_cons, Bool.not_false,
      Bool.true_or, Bool.and_true, List.append_assoc, ← Bool.and_assoc, Bool.and_self]

end

/-- A tree that was read prints the chunks of what was read. -/
theorem Body.WellFormed.chunks_toRoot {b : Body} (h : b.WellFormed) :
    b.toRoot.chunks = b.chunks false := by
  have hb := h.chunks_contents 0 false []
  rw [Bool.false_and, terminator_false, List.nil_append] at hb
  exact hb

end EmbeddedCss.Css
