import EmbeddedCss.Proofs.Css.Words
import EmbeddedCss.Proofs.Parser.Outcome

/-! # Printing and reading built trees

A tree that was built and not read has no layout of its own, and is printed with the default layout.
If its contents are plain words, reading the print gives the tree back: every item is read as what
it was printed from, and ends where its print ends. That it is read so depends on what follows in
the print, which is a semicolon, a line end, a closing brace or the end of the text. -/

namespace EmbeddedCss.Css

open Lexeme
open Text (isSpace IsWord IsWords)

/-! ## Built trees -/

/-- A node without what it keeps of the text it was read from. -/
def Node.bare : Node → Node
  | .rule selector nodes _ _ => .rule selector nodes {} none
  | .atRule name params nodes _ _ => .atRule name params nodes {} none
  | .decl prop value important _ _ => .decl prop value important {} none
  | .comment text _ _ => .comment text {} none

/-- A node that was built from plain contents: its names are words of letters, digits, hyphens and
underscores, and its other texts are such words, with dots and hashes, joined by single spaces. -/
inductive Node.Built : Node → Prop
  | rule {selector : Text} {nodes : List Node} : IsWords isWordChar selector →
      (∀ n ∈ nodes, n.Built) → Node.Built (.rule selector nodes {} none)
  | statement {name params : Text} : IsWord isNameChar name →
      params = [] ∨ IsWords isWordChar params → Node.Built (.atRule name params none {} none)
  | atBlock {name params : Text} {nodes : List Node} : IsWord isNameChar name →
      params = [] ∨ IsWords isWordChar params → (∀ n ∈ nodes, n.Built) →
      Node.Built (.atRule name params (some nodes) {} none)
  | decl {prop value : Text} {important : Bool} : IsWord isNameChar prop →
      IsWords isWordChar value → Node.Built (.decl prop value important {} none)
  | comment {text : Text} : IsWords isWordChar text → Node.Built (.comment text {} none)

/-! ## The print of a built tree -/

/-- The print of a node without the semicolon that ends it. -/
def Node.written (n : Node) : Text := (n.chunks false).flatten

theorem Node.flatten_chunks (n : Node) (ended : Bool) : (n.chunks ended).flatten =
    n.written ++ (terminator (n.endsInSemicolon && ended)).flatten := by
  cases n with
  | atRule name params nodes layout source =>
    cases nodes <;> cases ended <;> simp [Node.written, Node.chunks, Node.endsInSemicolon]
  | _ => cases ended <;> simp [Node.written, Node.chunks, Node.endsInSemicolon]

/-- The print of some nodes in front of which `before` stands. -/
def Node.writtenAll (before : Text) (ns : List Node) : Text :=
  (Node.bodyChunks false before ns).flatten

/-- The print of a block. -/
def Node.writtenBlock (nodes : List Node) : Text :=
  Node.writtenAll defaultBefore nodes ++ defaultAfter nodes

/-- The parameters of an at-rule as they are read. -/
def paramsOf (params : Text) : Option (Text × Text) :=
  if params = [] then none else some ([' '], params)

theorem snd_paramsOf (params : Text) : (paramsOf params).elim [] Prod.snd = params := by
  unfold paramsOf
  split <;> simp_all

section Written

variable (name params selector prop value text : Text) (nodes : List Node) (important : Bool)

theorem written_rule : (Node.rule selector nodes {} none).written =
    selector ++ ' ' :: '{' :: (Node.writtenBlock nodes ++ ['}']) := by
  simp [Node.written, Node.chunks, Node.writtenBlock, Node.writtenAll, defaultBetween]

theorem written_statement : (Node.atRule name params none {} none).written =
    '@' :: (name ++ paramsText (paramsOf params)) := by
  by_cases h : params = []
  · simp [Node.written, Node.chunks, paramsOf, paramsText, h]
  · simp [Node.written, Node.chunks, paramsOf, paramsText, h]

theorem written_atBlock : (Node.atRule name params (some nodes) {} none).written =
    '@' :: (name ++ (paramsText (paramsOf params) ++
      ' ' :: '{' :: (Node.writtenBlock nodes ++ ['}']))) := by
  by_cases h : params = []
  · simp [Node.written, Node.chunks, paramsOf, paramsText, h, Node.writtenBlock, Node.writtenAll,
      defaultBetween]
  · simp [Node.written, Node.chunks, paramsOf, paramsText, h, Node.writtenBlock, Node.writtenAll,
      defaultBetween]

/-- The value of a declaration as it is printed. -/
def valueText : Text := value ++ if important then defaultImportant else []

theorem written_decl : (Node.decl prop value important {} none).written =
    prop ++ ':' :: ' ' :: valueText value important := by
  cases important <;>
    simp [Node.written, Node.chunks, Verbatim.printed, defaultColon, valueText]

theorem written_comment : (Node.comment text {} none).written =
    '/' :: '*' :: (' ' :: (text ++ [' ']) ++ ['*', '/']) := by
  simp [Node.written, Node.chunks, defaultPadding]

end Written

/-! ## Values and comments -/

/-- What stands between the delimiters of a comment. -/
theorem inner_comment (inner : Text) :
    (List.drop 2 ('/' :: '*' :: (inner ++ ['*', '/']))).dropLast.dropLast = inner := by
  simp [List.dropLast_append_of_ne_nil]

section Values

variable {value text : Text} (hvalue : IsWords isWordChar value)

include hvalue

/-- A value is words with its mark of importance. -/
theorem isWords_valueText (important : Bool) : IsWords isInert (valueText value important) := by
  have hinert := hvalue.mono fun _ ↦ isInert_of_isWordChar
  cases important with
  | false => simpa [valueText] using hinert
  | true =>
    have hmark : IsWord isInert importantMark := by decide +kernel
    exact hinert.concat hmark

/-- Words are not marked as important. -/
theorem cutImportant_words : cutImportant value = none := by
  have hmark : '!' ∉ value := by
    intro h
    rcases hvalue.mem h with h | h
    · exact absurd h (by decide)
    · exact absurd h (by decide)
  rw [cutImportant, hvalue.trimEnd_eq fun _ ↦ isBlank_of_isWordChar]
  refine if_neg fun h ↦ hmark ?_
  have hbang : '!' ∈ (value.drop (value.length - importantMark.length)).map Char.toLower := by
    rw [h]
    decide +kernel
  obtain ⟨c, hc, hlower⟩ := List.mem_map.1 hbang
  rw [← eq_bang_of_toLower hlower]
  exact List.mem_of_mem_drop hc

/-- The mark of importance is cut off the words in front of it. -/
theorem cutImportant_important :
    cutImportant (value ++ defaultImportant) = some (value, defaultImportant) := by
  have hwritten : value ++ defaultImportant = value ++ [' '] ++ importantMark := by
    rw [List.append_assoc]
    rfl
  have htrim : Text.trimEnd (value ++ defaultImportant) = value ++ defaultImportant := by
    have hlast : defaultImportant = " !importan".toList ++ ['t'] := by decide +kernel
    rw [hlast, ← List.append_assoc]
    exact Text.trimEnd_concat (by decide)
  have hbang : (value ++ defaultImportant).length - importantMark.length =
      (value ++ [' ']).length := by
    rw [hwritten, List.length_append, Nat.add_sub_cancel]
  have hmark : importantMark.map Char.toLower = importantMark := by decide +kernel
  simp only [cutImportant, htrim, hbang]
  rw [hwritten, List.drop_left, if_pos hmark, List.take_left, Text.trimEnd_append_space,
    hvalue.trimEnd_eq fun _ ↦ isBlank_of_isWordChar, ← hwritten, List.drop_left]

/-- A declaration is built again from its value. -/
theorem mapTree_ofValue (prop : Text) (layout : Layout) (source : Span) (important : Bool) :
    (Node.ofValue prop layout source (valueText value important)).mapTree Node.bare =
      .decl prop value important {} none := by
  cases important with
  | false =>
    have htrim := hvalue.trimEnd_eq fun _ ↦ isBlank_of_isWordChar
    simp [Node.ofValue, valueText, cutImportant_words hvalue, htrim, Node.mapTree, Node.bare]
  | true =>
    simp [Node.ofValue, valueText, cutImportant_important hvalue, Node.mapTree, Node.bare]

end Values

/-- A comment is built again from its words. -/
theorem mapTree_ofComment {text : Text} (htext : IsWords isWordChar text) (layout : Layout)
    (source : Span) :
    (Node.ofComment ('/' :: '*' :: (' ' :: (text ++ [' ']) ++ ['*', '/'])) layout source).mapTree
      Node.bare = .comment text {} none := by
  simp only [Node.ofComment, inner_comment, Node.mapTree, Node.bare,
    htext.core_padded fun _ ↦ isBlank_of_isWordChar]

/-! ## Reading the parts of an item -/

section Grammar

open EmbeddedCss.Parser

variable {body : Parser Symbol Body} {s s₁ s₂ r : Text} {b : Body}

theorem yields_block (hb : body.Yields s b ('}' :: r)) :
    (Grammar.block body).Yields ('{' :: s) b r :=
  (((yields_char '{' s).bind <| hb.bind <| (yields_char '}' r).bind <| yields_pure b r)).named _

theorem refuses_block (h : s.head? ≠ some '{') : (Grammar.block body).Refuses s :=
  (refuses_char h).bind.named _

/-- A piece of text that ends where words stop is no selector if no block follows. -/
theorem refuses_rule {selector : Text} (hs : prelude s = some (selector, s₁))
    (h : (s₁.dropWhile isSpace).head? ≠ some '{') : (Grammar.rule body).Refuses s :=
  ((yields_token _ hs).bind_refuses <| (yields_lexeme rfl).bind_refuses <|
    (refuses_block h).bind).named _

/-- A rule is read in front of what its block leaves. -/
theorem yields_rule {selector between : Text} (h : prelude s = some (selector, s₁))
    (hspaces : spaces s₁ = some (between, '{' :: s₂)) (hb : body.Yields s₂ b ('}' :: r)) :
    (Grammar.rule body).Yields s (.rule selector between b) r := by
  refine Yields.named _ ?_
  refine (yields_token _ h).bind ?_
  refine (yields_lexeme hspaces).bind ?_
  refine (yields_block hb).bind ?_
  exact yields_pure _ r

/-- A declaration is read in front of what is no part of its value. -/
theorem yields_decl {prop colon value : Text} (hprop : property s = some (prop, s₁))
    (hcolon : Lexeme.colon s₁ = some (colon, s₂)) (hvalue : prelude s₂ = some (value, r))
    (hr : trailing r = none) : Grammar.decl.Yields s (.decl prop colon value) r := by
  refine Yields.named _ ?_
  refine (yields_token _ hprop).bind ?_
  refine (yields_token _ hcolon).bind ?_
  refine (yields_token _ hvalue).optional.bind ?_
  refine (refuses_token _ hr).optional.bind ?_
  rw [Option.getD_some, Option.getD_none, List.append_nil]
  exact yields_pure _ r

theorem refuses_params (h : Stops s) : Grammar.params.Refuses s := by
  have hprelude : prelude (s.dropWhile isSpace) = none := by
    rw [prelude, Scanner.seq, h]
  exact (yields_token _ rfl).bind_refuses (refuses_token _ hprelude).bind

/-- The parameters of an at-rule are read if there are any. -/
theorem yields_params {params : Text} (hp : params = [] ∨ IsWords isWordChar params)
    (hr : Stops r) :
    (optional Grammar.params).Yields (paramsText (paramsOf params) ++ r) (paramsOf params) r := by
  rcases hp with rfl | hp
  · exact (refuses_params hr).optional
  · have hne : params ≠ [] := by
      obtain ⟨c, u, rfl, -⟩ := hp.exists_cons
      simp
    have hspace : spaces (' ' :: (params ++ r)) = some ([' '], params ++ r) := by
      obtain ⟨c, u, rfl, hc⟩ := hp.exists_cons
      exact run_append (l := [' ']) (List.all_eq_true.1 (by decide))
        (by simpa using isSpace_of_isWordChar hc)
    have hprelude := prelude_words (hp.mono fun _ ↦ isInert_of_isWordChar) hr
    rw [paramsOf, if_neg hne]
    exact ((yields_token _ hspace).bind <| (yields_token _ hprelude).bind <|
      yields_pure ([' '], params) r).optional

/-- An at-rule by what it ends with. -/
def atRuleOf (name : Text) (params : Option (Text × Text)) : Option (Text × Option Body) → Item
  | none => .statement name params none
  | some (between, none) => .statement name params (some between)
  | some (between, some b) => .atBlock name params between b

/-- An at-rule is read with its name and its parameters, and ends with what follows them. -/
theorem yields_item_of_at {name params : Text} {e : Option (Text × Option Body)}
    (hname : IsWord isNameChar name) (hparams : params = [] ∨ IsWords isWordChar params)
    (hstops : Stops s) (hs : ∀ c ∈ s.head?, isNameChar c = false)
    (he : (optional (Grammar.atEnd body)).Yields s e r) :
    (Grammar.item body).Yields ('@' :: (name ++ (paramsText (paramsOf params) ++ s)))
      (atRuleOf name (paramsOf params) e) r := by
  have hnext : ∀ c ∈ (paramsText (paramsOf params) ++ s).head?, isNameChar c = false := by
    unfold paramsOf
    split
    · exact hs
    · simp [paramsText, show isNameChar ' ' = false from rfl]
  refine Yields.orElse (Yields.named _ ?_)
  refine (yields_char '@' _).bind ?_
  refine (yields_token _ (atName_append hname hnext)).bind ?_
  refine (yields_params hparams hstops).bind ?_
  refine he.bind ?_
  rcases e with _ | ⟨between, _ | b⟩
  · exact yields_pure _ r
  · exact yields_pure _ r
  · exact yields_pure _ r

/-- An item that starts with a word is a rule or a declaration. -/
theorem yields_item_of_word {c : Char} {i : Item} (hc : isWordChar c = true)
    (h : (orElse (Grammar.rule body) Grammar.decl).Yields (c :: s) i r) :
    (Grammar.item body).Yields (c :: s) i r := by
  have hne : c ∉ ['@', '/'] := notMem_of_isWordChar hc (by decide)
  simp only [List.mem_cons, List.not_mem_nil, or_false, not_or] at hne
  have hat : (Grammar.atRule body).Refuses (c :: s) :=
    (refuses_char (by simpa using hne.1)).bind.named _
  have hlone : loneComment (c :: s) = none := by
    simp [loneComment, Scanner.followedBy, comment_eq_none (opensComment_eq_false hne.2 s)]
  exact hat.orElse (((refuses_token _ hlone).map _).orElse h)

/-- There is no item in front of a closing brace or the end of the text. -/
theorem refuses_item (hr : ∀ c ∈ r.head?, c = '}') : (Grammar.item body).Refuses r := by
  have hhead (c : Char) (hc : c ≠ '}') : r.head? ≠ some c := fun h ↦ hc (hr c h)
  have hprelude : prelude r = none ∧ property r = none ∧ loneComment r = none := by
    cases r with
    | nil =>
      refine ⟨?_, rfl, rfl⟩
      rw [prelude, Scanner.seq, atom_nil]
    | cons c t =>
      obtain rfl := hr c rfl
      refine ⟨?_, rfl, rfl⟩
      rw [prelude, Scanner.seq, atom_eq_none (by decide)]
  have hat : (Grammar.atRule body).Refuses r :=
    (refuses_char (hhead '@' (by decide))).bind.named _
  exact hat.orElse_refuses <| ((refuses_token _ hprelude.2.2).map _).orElse_refuses <|
    Refuses.orElse_refuses ((refuses_token _ hprelude.1).bind.named _)
      ((refuses_token _ hprelude.2.1).bind.named _)

variable {fuel : Nat} {g : Text} {i : Item}

/-- A body ends where there is no item behind a gap. -/
theorem yields_body_done (hgap : gap s = some (g, r))
    (hr : (Grammar.item (Grammar.body fuel)).Refuses r) :
    (Grammar.body (fuel + 1)).Yields s (.done g) r := by
  refine (yields_lexeme hgap).bind ?_
  refine hr.optional.bind ?_
  exact yields_pure _ r

/-- A body goes on behind an item. -/
theorem yields_body_item (hgap : gap s = some (g, s₁))
    (hi : (Grammar.item (Grammar.body fuel)).Yields s₁ i s₂)
    (hb : (Grammar.body fuel).Yields s₂ b r) :
    (Grammar.body (fuel + 1)).Yields s (.item g i b) r := by
  refine (yields_lexeme hgap).bind ?_
  refine hi.optional.bind ?_
  refine hb.bind ?_
  exact yields_pure _ r

/-! ## Reading a node back -/

/-- What can follow a node in the print of a tree. A node that a semicolon ends is followed by one,
or it is the last of its body. Any other node is followed by a line end, or it is the last of its
body; the item after it starts with neither a colon nor an opening brace. -/
def Follows (n : Node) (r : Text) : Prop :=
  if n.endsInSemicolon then r.head? = some ';' ∨ ∀ c ∈ (r.dropWhile isSpace).head?, c = '}'
  else (∀ c ∈ r.head?, isSpace c = true ∨ c = '}') ∧
    ∀ c ∈ (r.dropWhile isSpace).head?, c ≠ ':' ∧ c ≠ '{'

/-- Where its print is followed by what can follow it, a node is read back. -/
def ReadsBack (n : Node) : Prop :=
  ∀ (fuel : Nat) (r : Text), (n.written ++ r).length ≤ fuel → Follows n r →
    ∃ i, (Grammar.item (Grammar.body fuel)).Yields (n.written ++ r) i r ∧
      ∀ start before, (i.toNode start before).mapTree Node.bare = n

/-- A block is read back with its nodes. -/
def BlockReadsBack (nodes : List Node) : Prop :=
  ∀ (fuel : Nat) (r : Text), (Node.writtenBlock nodes ++ '}' :: r).length < fuel →
    ∃ b, (Grammar.body fuel).Yields (Node.writtenBlock nodes ++ '}' :: r) b ('}' :: r) ∧
      ∀ offset unended, Node.mapTreeAll Node.bare (b.contents offset unended).nodes = nodes

/-- Where a node ends that a semicolon ends, words stop and no block follows. -/
theorem stops_of_ends {r : Text}
    (hr : r.head? = some ';' ∨ ∀ c ∈ (r.dropWhile isSpace).head?, c = '}') :
    Stops r ∧ (r.dropWhile isSpace).head? ≠ some '{' := by
  rcases hr with hr | hr
  · obtain ⟨t, rfl⟩ := List.head?_eq_some_iff.1 hr
    exact ⟨atom_eq_none (by decide) t, by simp [isSpace]⟩
  · refine ⟨stops_of_head? fun c hc ↦ by simp [hr c hc], fun h ↦ ?_⟩
    exact absurd (hr _ h) (by decide)

/-- A comment that is followed by neither a block nor a colon nor a selector stands for itself. -/
theorem loneComment_append {inner r : Text} (hinner : '*' ∉ inner)
    (hnext : ∀ c ∈ r.head?, isSpace c = true ∨ c = '}')
    (hitem : ∀ c ∈ (r.dropWhile isSpace).head?, c ≠ ':' ∧ c ≠ '{') :
    loneComment ('/' :: '*' :: (inner ++ '*' :: '/' :: r)) =
      some ('/' :: '*' :: (inner ++ ['*', '/']), r) := by
  have hcomment : comment ('/' :: '*' :: (inner ++ '*' :: '/' :: r)) =
      some ('/' :: '*' :: (inner ++ ['*', '/']), r) := by
    rw [comment, commentTail_append_of_notMem hinner]
    rfl
  have hproperty : isPropertyTail r = false := by
    unfold isPropertyTail
    split
    · rename_i t ht
      rw [ht] at hitem
      exact absurd rfl (hitem ':' rfl).1
    · rfl
  have hblock : opensBlock (r.dropWhile isSpace) = false := by
    rw [opensBlock, beq_eq_false_iff_ne]
    exact fun h ↦ (hitem '{' h).2 rfl
  have hselector : isSelectorTail r = false := by
    cases r with
    | nil => rfl
    | cons c t => rcases hnext c rfl with h | rfl <;> simp [isSelectorTail, *]
  simp [loneComment, Scanner.followedBy, hcomment, hproperty, hblock, hselector]

theorem readsBack_comment {text : Text} (htext : IsWords isWordChar text) :
    ReadsBack (.comment text {} none) := by
  intro fuel r _ hr
  obtain ⟨hnext, hitem⟩ : (∀ c ∈ r.head?, isSpace c = true ∨ c = '}') ∧
    ∀ c ∈ (r.dropWhile isSpace).head?, c ≠ ':' ∧ c ≠ '{' := hr
  have hstar : '*' ∉ ' ' :: (text ++ [' ']) := by
    simp only [List.mem_cons, List.mem_append, List.not_mem_nil, or_false, not_or]
    refine ⟨by decide, fun h ↦ ?_, by decide⟩
    rcases htext.mem h with h | h
    · exact absurd h (by decide)
    · exact absurd h (by decide)
  refine ⟨.comment ('/' :: '*' :: (' ' :: (text ++ [' ']) ++ ['*', '/'])), ?_,
    fun start before ↦ ?_⟩
  · have hlone := loneComment_append hstar hnext hitem
    have hat : (Grammar.atRule (Grammar.body fuel)).Refuses
        ('/' :: '*' :: (' ' :: (text ++ [' ']) ++ '*' :: '/' :: r)) :=
      (refuses_char (by simp)).bind.named _
    have hread : (Grammar.item (Grammar.body fuel)).Yields _ _ r :=
      hat.orElse ((yields_token Symbol.comment hlone).map Item.comment).orElse
    rw [written_comment]
    simpa using hread
  · exact mapTree_ofComment htext _ _

theorem readsBack_rule {selector : Text} {nodes : List Node}
    (hselector : IsWords isWordChar selector) (hnodes : BlockReadsBack nodes) :
    ReadsBack (.rule selector nodes {} none) := by
  intro fuel r hfuel _
  rw [written_rule] at hfuel ⊢
  obtain ⟨b, hb, hcontents⟩ := hnodes fuel r (by simp at hfuel ⊢; omega)
  refine ⟨.rule selector [' '] b, ?_, fun start before ↦ ?_⟩
  · have hprelude := prelude_words (hselector.mono fun _ ↦ isInert_of_isWordChar)
      (r := ' ' :: '{' :: (Node.writtenBlock nodes ++ '}' :: r))
      (stops_of_head? (by simp [isSpace]))
    have hspaces : spaces (' ' :: '{' :: (Node.writtenBlock nodes ++ '}' :: r)) =
        some ([' '], '{' :: (Node.writtenBlock nodes ++ '}' :: r)) := rfl
    have hrule := yields_rule hprelude hspaces hb
    obtain ⟨c, u, rfl, hc⟩ := hselector.exists_cons
    simp only [List.append_assoc, List.cons_append, List.nil_append] at hrule ⊢
    exact yields_item_of_word hc hrule.orElse
  · simp only [Item.toNode, Node.mapTree, Node.bare, hcontents]


theorem readsBack_decl {prop value : Text} {important : Bool} (hprop : IsWord isNameChar prop)
    (hvalue : IsWords isWordChar value) : ReadsBack (.decl prop value important {} none) := by
  intro fuel r _ hr
  replace hr : r.head? = some ';' ∨ ∀ c ∈ (r.dropWhile isSpace).head?, c = '}' := hr
  obtain ⟨hstops, hblock⟩ := stops_of_ends hr
  have hwords := isWords_valueText hvalue important
  have hcolon : IsWord isInert (prop ++ [':']) := by
    refine ⟨by simp, List.forall_mem_append.2 ⟨fun c hc ↦ ?_, List.all_eq_true.1 (by decide)⟩⟩
    exact isInert_of_isWordChar (isWordChar_of_isNameChar (hprop.2 c hc))
  refine ⟨.decl prop [':', ' '] (valueText value important), ?_, fun start before ↦ ?_⟩
  · have hspace : ∀ c ∈ (valueText value important ++ r).head?, isSpace c = false := by
      obtain ⟨c, u, rfl, hc⟩ := hvalue.exists_cons
      simpa [valueText] using isSpace_of_isWordChar hc
    have htrailing : trailing r = none := by
      refine trailing_eq_none (hr.imp_right fun h hsemicolon ↦ ?_)
      exact absurd (h _ hsemicolon) (by decide)
    have hdecl := yields_decl (property_append hprop _) (colon_append hspace)
      (prelude_words hwords hstops) htrailing
    -- as a selector, the whole declaration would be read, but no block follows
    have hrule := prelude_words (hcolon.cons hwords) hstops
    obtain ⟨c, u, rfl⟩ := List.exists_cons_of_ne_nil hprop.1
    rw [written_decl]
    simp only [List.append_assoc, List.cons_append] at hdecl hrule ⊢
    exact yields_item_of_word (isWordChar_of_isNameChar (hprop.2 c (List.mem_cons_self ..)))
      ((refuses_rule hrule hblock).orElse hdecl)
  · exact mapTree_ofValue hvalue prop _ _ important

theorem readsBack_statement {name params : Text} (hname : IsWord isNameChar name)
    (hparams : params = [] ∨ IsWords isWordChar params) :
    ReadsBack (.atRule name params none {} none) := by
  intro fuel r _ hr
  replace hr : r.head? = some ';' ∨ ∀ c ∈ (r.dropWhile isSpace).head?, c = '}' := hr
  obtain ⟨hstops, hblock⟩ := stops_of_ends hr
  have hnext : ∀ c ∈ r.head?, isNameChar c = false := by
    intro c hc
    obtain ⟨t, rfl⟩ := List.head?_eq_some_iff.1 hc
    cases hspace : isSpace c with
    | true =>
      refine Bool.eq_false_iff.2 fun hname ↦ ?_
      rw [isSpace_of_isWordChar (isWordChar_of_isNameChar hname)] at hspace
      cases hspace
    | false =>
      have hc : c = ';' ∨ c = '}' := by simpa [hspace] using hr
      rcases hc with rfl | rfl <;> rfl
  -- a semicolon is noticed but not read; anything else is not looked at any more
  obtain ⟨e, he, hnode⟩ : ∃ e, (optional (Grammar.atEnd (Grammar.body fuel))).Yields r e r ∧
      ∃ between, atRuleOf name (paramsOf params) e =
        .statement name (paramsOf params) between := by
    rcases hr with hr | hr
    · obtain ⟨t, rfl⟩ := List.head?_eq_some_iff.1 hr
      refine ⟨some ([], none), Yields.optional ?_, _, rfl⟩
      refine (yields_token _ (l := []) (r := ';' :: t) (by rfl)).bind ?_
      refine (refuses_block (by simp)).bind.orElse ?_
      exact (yields_ahead (by rfl)).bind (yields_pure _ _)
    · refine ⟨none, Refuses.optional ?_, _, rfl⟩
      refine (yields_token _ rfl).bind_refuses ?_
      refine (refuses_block hblock).bind.orElse_refuses ?_
      refine (refuses_ahead ?_).bind
      rw [beq_eq_false_iff_ne]
      exact fun h ↦ absurd (hr _ h) (by decide)
  obtain ⟨between, hitem⟩ := hnode
  refine ⟨atRuleOf name (paramsOf params) e, ?_, fun start before ↦ ?_⟩
  · rw [written_statement, List.cons_append, List.append_assoc]
    exact yields_item_of_at hname hparams hstops hnext he
  · rw [hitem]
    simp only [Item.toNode, Node.mapTree, Node.bare, snd_paramsOf]

theorem readsBack_atBlock {name params : Text} {nodes : List Node} (hname : IsWord isNameChar name)
    (hparams : params = [] ∨ IsWords isWordChar params) (hnodes : BlockReadsBack nodes) :
    ReadsBack (.atRule name params (some nodes) {} none) := by
  intro fuel r hfuel _
  rw [written_atBlock] at hfuel ⊢
  obtain ⟨b, hb, hcontents⟩ := hnodes fuel r (by simp at hfuel ⊢; omega)
  have he : (optional (Grammar.atEnd (Grammar.body fuel))).Yields
      (' ' :: '{' :: (Node.writtenBlock nodes ++ '}' :: r)) (some ([' '], some b)) r := by
    refine Yields.optional ?_
    refine (yields_token _ (l := [' ']) (by rfl)).bind ?_
    exact ((yields_block hb).bind (yields_pure ([' '], some b) r)).orElse
  refine ⟨.atBlock name (paramsOf params) [' '] b, ?_, fun start before ↦ ?_⟩
  · have hstops : Stops (' ' :: '{' :: (Node.writtenBlock nodes ++ '}' :: r)) :=
      stops_of_head? (by simp [isSpace])
    have hread := yields_item_of_at hname hparams hstops (by simp; rfl) he
    simpa [atRuleOf] using hread
  · simp only [Item.toNode, Node.mapTree, Node.bare, snd_paramsOf, hcontents]

end Grammar

/-! ## Reading bodies back -/

theorem Node.Built.layout_eq {n : Node} (h : n.Built) : n.layout = {} := by cases h <;> rfl

/-- The print of a built node starts with a word, an at sign or a slash. -/
theorem Node.Built.exists_cons {n : Node} (h : n.Built) :
    ∃ c t, n.written = c :: t ∧ (isWordChar c = true ∨ c = '@' ∨ c = '/') := by
  cases h with
  | rule hselector _ =>
    obtain ⟨c, u, rfl, hc⟩ := hselector.exists_cons
    exact ⟨c, _, written_rule .., .inl hc⟩
  | statement => exact ⟨'@', _, written_statement .., .inr (.inl rfl)⟩
  | atBlock => exact ⟨'@', _, written_atBlock .., .inr (.inl rfl)⟩
  | decl hprop _ =>
    obtain ⟨c, u, rfl⟩ := List.exists_cons_of_ne_nil hprop.1
    have hc := isWordChar_of_isNameChar (hprop.2 c (List.mem_cons_self ..))
    exact ⟨c, _, written_decl .., .inl hc⟩
  | comment => exact ⟨'/', _, written_comment .., .inr (.inr rfl)⟩

/-- The first character of a print is neither white space nor a sign that belongs to what stands in
front of it. -/
theorem start_of_exists_cons {c : Char} (h : isWordChar c = true ∨ c = '@' ∨ c = '/') :
    isSpace c = false ∧ c ≠ ';' ∧ c ≠ ':' ∧ c ≠ '{' := by
  rcases h with h | rfl | rfl
  · have hne : c ∉ [';', ':', '{'] := notMem_of_isWordChar h (by decide)
    exact ⟨isSpace_of_isWordChar h, by simpa using hne⟩
  · decide
  · decide

theorem writtenAll_cons {n : Node} (hn : n.layout = {}) (before : Text) (ns : List Node) :
    Node.writtenAll before (n :: ns) = before ++ (n.written ++
      ((terminator (n.endsInSemicolon && !ns.isEmpty)).flatten ++
        Node.writtenAll defaultBefore ns)) := by
  simp [Node.writtenAll, Node.bodyChunks, Node.flatten_chunks, hn]

/-- What follows a node in the print of a body can follow it. -/
theorem follows_of_built (n : Node) {ns : List Node} (hns : ∀ m ∈ ns, m.Built) {after r : Text}
    (hafter : ∀ c ∈ after, isSpace c = true) (hr : ∀ c ∈ r.head?, c = '}') :
    Follows n ((terminator (n.endsInSemicolon && !ns.isEmpty)).flatten ++
      (Node.writtenAll defaultBefore ns ++ (after ++ r))) := by
  cases ns with
  | nil =>
    have hdrop : (after ++ r).dropWhile isSpace = r := by
      rw [List.dropWhile_append_of_pos hafter]
      cases r with
      | nil => rfl
      | cons c t =>
        obtain rfl := hr c rfl
        rfl
    change Follows n ((terminator (n.endsInSemicolon && false)).flatten ++ (after ++ r))
    rw [Bool.and_false, terminator_false, List.flatten_nil, List.nil_append, Follows, hdrop]
    split
    · exact .inr hr
    · refine ⟨fun c hc ↦ ?_, fun c hc ↦ ?_⟩
      · cases after with
        | nil => exact .inr (hr c hc)
        | cons d after =>
          obtain rfl : d = c := by simpa using hc
          exact .inl (hafter d (List.mem_cons_self ..))
      · obtain rfl := hr c hc
        decide
  | cons m ms =>
    have hm := hns m (List.mem_cons_self ..)
    obtain ⟨c, t, hwritten, hc⟩ := hm.exists_cons
    obtain ⟨hspace, -, hcolon, hbrace⟩ := start_of_exists_cons hc
    rw [writtenAll_cons hm.layout_eq, hwritten, Follows]
    split
    · rename_i hn
      exact .inl (by simp [hn])
    · rename_i hn
      simp [hn, defaultBefore, show isSpace '\n' = true from rfl, hspace, hcolon, hbrace]

/-- The print of built nodes is read back with the gap in front of it, if they are followed by the
end of their body. -/
theorem exists_yields_body {ns : List Node} (hns : ∀ n ∈ ns, n.Built ∧ ReadsBack n)
    (lead before after r : Text) (fuel : Nat)
    (hgap : ∀ c ∈ lead ++ before, (isSpace c || c == ';') = true)
    (hafter : ∀ c ∈ after, isSpace c = true) (hr : ∀ c ∈ r.head?, c = '}')
    (hfuel : (lead ++ (Node.writtenAll before ns ++ (after ++ r))).length < fuel) :
    ∃ b, (Grammar.body fuel).Yields (lead ++ (Node.writtenAll before ns ++ (after ++ r))) b r ∧
      ∀ offset unended, Node.mapTreeAll Node.bare (b.contents offset unended).nodes = ns := by
  induction ns generalizing lead before fuel with
  | nil =>
    obtain ⟨fuel, rfl⟩ := Nat.exists_eq_add_one.2 (Nat.zero_lt_of_lt hfuel)
    have hread : gap (lead ++ after ++ r) = some (lead ++ after, r) := by
      refine run_append (List.forall_mem_append.2 ⟨?_, ?_⟩) ?_
      · exact fun c hc ↦ hgap c (List.mem_append_left _ hc)
      · intro c hc
        rw [hafter c hc, Bool.true_or]
      · intro c hc
        obtain rfl := hr c hc
        rfl
    refine ⟨.done (lead ++ after), ?_, fun _ _ ↦ rfl⟩
    rw [List.append_assoc] at hread
    exact yields_body_done hread (refuses_item hr)
  | cons n ns ih =>
    obtain ⟨fuel, rfl⟩ := Nat.exists_eq_add_one.2 (Nat.zero_lt_of_lt hfuel)
    obtain ⟨⟨hbuilt, hback⟩, hlater⟩ := List.forall_mem_cons.1 hns
    have hfollows := follows_of_built n (fun m hm ↦ (hlater m hm).1) hafter hr
    have hrest := ih hlater (terminator (n.endsInSemicolon && !ns.isEmpty)).flatten
      defaultBefore fuel
      (List.all_eq_true.1 (by cases n.endsInSemicolon && !ns.isEmpty <;> decide))
    have hwritten : lead ++ (Node.writtenAll before (n :: ns) ++ (after ++ r)) =
        lead ++ before ++ (n.written ++
          ((terminator (n.endsInSemicolon && !ns.isEmpty)).flatten ++
            (Node.writtenAll defaultBefore ns ++ (after ++ r)))) := by
      rw [writtenAll_cons hbuilt.layout_eq]
      simp only [List.append_assoc]
    rw [hwritten] at hfuel ⊢
    generalize (terminator (n.endsInSemicolon && !ns.isEmpty)).flatten ++
      (Node.writtenAll defaultBefore ns ++ (after ++ r)) = rest at *
    obtain ⟨c, t, hstart, hc⟩ := hbuilt.exists_cons
    have hread : gap (lead ++ before ++ (n.written ++ rest)) =
        some (lead ++ before, n.written ++ rest) := by
      refine run_append hgap ?_
      obtain ⟨hspace, hsemicolon, -⟩ := start_of_exists_cons hc
      simp [hstart, hspace, hsemicolon]
    have hsize : (n.written ++ rest).length ≤ fuel ∧ rest.length < fuel := by
      simp only [hstart, List.length_append, List.length_cons] at hfuel ⊢
      omega
    obtain ⟨i, hi, hnode⟩ := hback fuel rest hsize.1 hfollows
    obtain ⟨b, hb, hnodes⟩ := hrest hsize.2
    refine ⟨.item (lead ++ before) i b, yields_body_item hread hi hb, fun offset unended ↦ ?_⟩
    simp only [Body.contents, Node.mapTreeAll, hnode, hnodes]

theorem blockReadsBack {nodes : List Node} (h : ∀ n ∈ nodes, n.Built ∧ ReadsBack n) :
    BlockReadsBack nodes := by
  intro fuel r hfuel
  have hafter : ∀ c ∈ defaultAfter nodes, isSpace c = true := by
    rw [← List.all_eq_true]
    unfold defaultAfter
    split <;> decide
  rw [Node.writtenBlock, List.append_assoc] at hfuel ⊢
  exact exists_yields_body h [] _ _ _ _ (List.all_eq_true.1 (by decide)) hafter (by simp) hfuel

/-- A built node is read back. -/
theorem Node.Built.readsBack {n : Node} (h : n.Built) : ReadsBack n := by
  induction h with
  | rule hselector hnodes ih =>
    exact readsBack_rule hselector (blockReadsBack fun n hn ↦ ⟨hnodes n hn, ih n hn⟩)
  | statement hname hparams => exact readsBack_statement hname hparams
  | atBlock hname hparams hnodes ih =>
    exact readsBack_atBlock hname hparams (blockReadsBack fun n hn ↦ ⟨hnodes n hn, ih n hn⟩)
  | decl hprop hvalue => exact readsBack_decl hprop hvalue
  | comment htext => exact readsBack_comment htext

/-- A stylesheet is read if its body is, up to the end of the text. -/
theorem parse_of_yields {css : Text} {b : Body}
    (h : (Grammar.body (css.length + 1)).Yields css b []) : parse css = .ok b.toRoot := by
  have hsheet : (Grammar.stylesheet css.length).Yields css b [] := by
    refine Parser.Yields.named _ ?_
    refine h.bind ?_
    refine ((Parser.yields_ahead rfl).named _).bind ?_
    exact Parser.yields_pure b []
  obtain ⟨n, hvalue⟩ := hsheet 0
  exact parse_eq_ok_iff.2 ⟨b, _, hvalue, rfl⟩

/-- A built tree is read back from its print: the stylesheet that is read has the same nodes, but
for their layout and the spans that they were read from. -/
theorem parse_text_of_built {root : Root} (hlayout : root.layout = {})
    (hnodes : ∀ n ∈ root.nodes, n.Built) :
    ∃ root', parse root.text = .ok root' ∧ Node.mapTreeAll Node.bare root'.nodes = root.nodes := by
  have htext : root.text = [] ++ (Node.writtenAll [] root.nodes ++ ([] ++ [])) := by
    simp [Root.text, Root.chunks, hlayout, Node.writtenAll]
  have hback : ∀ n ∈ root.nodes, n.Built ∧ ReadsBack n := fun n hn ↦
    ⟨hnodes n hn, (hnodes n hn).readsBack⟩
  obtain ⟨b, hb, hcontents⟩ := exists_yields_body hback [] [] [] [] (root.text.length + 1)
    (by simp) (by simp) (by simp) (by rw [← htext]; exact Nat.lt_succ_self _)
  rw [← htext] at hb
  exact ⟨b.toRoot, parse_of_yields hb, hcontents 0 false⟩

/-- A tree with nodes of every kind, in which an at-rule without parameters and an important
declaration are the last of their blocks. -/
theorem parse_text_of_built_nested :
    let root : Root := { nodes :=
      [.comment "a b".toList {} none,
        .atRule "media".toList "screen".toList (some
          [.rule "a .b".toList [.decl "color".toList "red".toList true {} none] {} none,
            .rule "#c".toList [] {} none, .atRule "x".toList [] none {} none]) {} none,
        .decl "--y".toList "1.5 2".toList false {} none] }
    root.text = "/* a b */\n@media screen \x7b\na .b \x7b\ncolor: red !important\n\x7d\n".toList ++
        "#c \x7b\x7d\n@x\n\x7d\n--y: 1.5 2".toList ∧
      ∃ root', parse root.text = .ok root' ∧
        Node.mapTreeAll Node.bare root'.nodes = root.nodes := by
  intro root
  refine ⟨by decide +kernel, parse_text_of_built rfl ?_⟩
  have hred : Node.Built (.decl "color".toList "red".toList true {} none) :=
    .decl (by decide +kernel) (Text.IsWord.isWords (by decide +kernel))
  have hrule : Node.Built (.rule "a .b".toList [.decl "color".toList "red".toList true {} none]
      {} none) :=
    .rule ⟨"a".toList, [".b".toList], by decide +kernel, by decide +kernel⟩ (by simpa using hred)
  have hempty : Node.Built (.rule "#c".toList [] {} none) :=
    .rule (Text.IsWord.isWords (by decide +kernel)) (by simp)
  have hx : Node.Built (.atRule "x".toList [] none {} none) :=
    .statement (by decide +kernel) (.inl rfl)
  have hmedia : Node.Built (.atRule "media".toList "screen".toList (some
      [.rule "a .b".toList [.decl "color".toList "red".toList true {} none] {} none,
        .rule "#c".toList [] {} none, .atRule "x".toList [] none {} none]) {} none) :=
    .atBlock (by decide +kernel) (.inr (Text.IsWord.isWords (by decide +kernel)))
      (by simpa using ⟨hrule, hempty, hx⟩)
  have hcomment : Node.Built (.comment "a b".toList {} none) :=
    .comment ⟨"a".toList, ["b".toList], by decide +kernel, by decide +kernel⟩
  have hy : Node.Built (.decl "--y".toList "1.5 2".toList false {} none) :=
    .decl (by decide +kernel) ⟨"1.5".toList, ["2".toList], by decide +kernel, by decide +kernel⟩
  simpa [root] using ⟨hcomment, hmedia, hy⟩

end EmbeddedCss.Css
