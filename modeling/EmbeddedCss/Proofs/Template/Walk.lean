import EmbeddedCss.Proofs.Host.Nesting
import EmbeddedCss.Proofs.Text.Place
import EmbeddedCss.Template.Split

/-! # Walking over a template body in its file

A template body can be taken apart where it stands, without cutting it out of its file first: a walk
from its first byte stops at the backtick that closes it and notes the spans of the interpolations
on the way, and the pieces are then cut out of the file by these spans. A body on its own is walked
over to its end, where a backtick closes nothing.

The main statements are that this walk and the splitting of the body take the same steps. Where the
literal is closed, the walk has the rest of the file in view, but nothing behind the closing
backtick matters to it. Where it is not, or where the body stands on its own, the walk fails if the
body does not split, and blames the same interpolation. -/

namespace EmbeddedCss.Template

open Host

/-- Walk over a body that starts at `start` of its file, from `offset` on. The result is the spans
of the interpolations and the end of the body, which is the backtick that closes it or, without a
literal around it, the end of the text. An interpolation that is never closed is an error, and so is
a literal. -/
def walk (inLiteral : Bool) (start offset : Nat) :
    Text → Except TemplateError (List Span × Nat)
  | [] =>
    if inLiteral then .error (.unclosedTemplate ⟨start - 1, offset⟩) else .ok ([], offset)
  | '\\' :: c :: s => walk inLiteral start (offset + Text.size ['\\', c]) s
  | '$' :: '{' :: s =>
    match _h : Region.close [.code] s with
    | none => .error (.unclosedInterpolation ⟨offset, offset + Text.size ('$' :: '{' :: s)⟩)
    | some (code, rest) =>
      (walk inLiteral start (offset + Text.size ('$' :: '{' :: code)) rest).map fun p ↦
        (⟨offset, offset + Text.size ('$' :: '{' :: code)⟩ :: p.1, p.2)
  | c :: s =>
    if c = '`' ∧ inLiteral = true then .ok ([], offset)
    else walk inLiteral start (offset + Text.size [c]) s
termination_by s => s.length
decreasing_by
  · simp only [List.length_cons]; omega
  · have := (Region.productive_close_cons .code []).length_lt _h
    simp only [List.length_cons]; omega
  · simp

/-- The template whose body takes the bytes from `start` to `stop` of a text, with interpolations
that take some spans there. -/
def cutOut (source : Text) (start stop : Nat) : List Span → Template
  | [] => ⟨Text.slice source ⟨start, stop⟩, []⟩
  | s :: rest =>
    ((cutOut source s.stop stop rest).interpolate
      (Text.slice source ⟨s.start + 2, s.stop - 1⟩)).prepend (Text.slice source ⟨start, s.start⟩)

/-! ## Spans -/

/-- The spans of the interpolations of a body that starts at `offset`. -/
def spansAt (offset : Nat) (t : Template) : List Span :=
  t.interpolations.map fun l ↦ l.span.shift offset

theorem shift_locate (n offset : Nat) (tail : List (Text × Text)) :
    ((locate n tail).map fun l ↦ l.span.shift offset) =
      (locate (n + offset) tail).map Located.span := by
  induction tail generalizing n with
  | nil => rfl
  | cons p tail ih =>
    rw [locate, locate, List.map_cons, List.map_cons, ih]
    simp only [Span.shift, List.cons.injEq, Span.mk.injEq, true_and]
    refine ⟨by omega, ?_⟩
    congr 2
    omega

theorem spansAt_eq (offset : Nat) (t : Template) :
    spansAt offset t = (locate (Text.size t.head + offset) t.tail).map Located.span :=
  shift_locate ..

theorem spansAt_prepend (offset : Nat) (s : Text) (t : Template) :
    spansAt offset (t.prepend s) = spansAt (offset + Text.size s) t := by
  rw [spansAt_eq, spansAt_eq, prepend, Text.size_append]
  congr 2
  omega

theorem spansAt_interpolate (offset : Nat) (code : Text) (t : Template) :
    spansAt offset (t.interpolate code) =
      ⟨offset, offset + Text.size (interpolation code)⟩ ::
        spansAt (offset + Text.size (interpolation code)) t := by
  rw [spansAt_eq, spansAt_eq, interpolate, locate, List.map_cons, Text.size_nil, Nat.zero_add,
    Nat.add_comm (Text.size t.head)]

/-- The spans of the interpolations of a body cut its pieces out of the file. -/
theorem cutOut_spansAt {source : Text} {start stop : Nat} {t : Template} {r : Text}
    (h : source.StandsAt start (t.text ++ r)) (hstop : stop = start + Text.size t.text) :
    cutOut source start stop (spansAt start t) = t := by
  obtain ⟨head, tail⟩ := t
  induction tail generalizing start head with
  | nil =>
    simp only [text, List.map_nil, List.flatten_nil, List.append_nil] at h hstop
    rw [spansAt_eq, locate, List.map_nil, cutOut, hstop, h.slice_eq]
  | cons p tail ih =>
    obtain ⟨code, literal⟩ := p
    have ht : (⟨head, (code, literal) :: tail⟩ : Template) =
        (interpolate code ⟨literal, tail⟩).prepend head := by
      simp [interpolate, prepend]
    rw [ht] at h hstop ⊢
    rw [text_prepend, text_interpolate, List.append_assoc, List.append_assoc] at h
    rw [text_prepend, text_interpolate, Text.size_append, Text.size_append] at hstop
    have hcode : Text.slice source ⟨start + Text.size head + 2,
        start + Text.size head + Text.size (interpolation code) - 1⟩ = code := by
      have hadvance := h.advance
      rw [interpolation, List.append_assoc, List.append_assoc] at hadvance
      have hstop : start + Text.size head + Text.size (interpolation code) - 1 =
          start + Text.size head + 2 + Text.size code := by
        rw [size_interpolation]
        omega
      rw [hstop]
      exact hadvance.advance.slice_eq
    rw [spansAt_prepend, spansAt_interpolate, cutOut, hcode, h.slice_eq,
      ih literal h.advance.advance (by omega)]

/-! ## The walk and the splitting agree -/

/-- A body that is taken apart splits into its template. -/
theorem split_of_ofText {body : Text} {t : Template} (h : ofText body = .ok t) :
    split body = .ok t := by
  rw [ofText] at h
  split at h
  · rename_i hsplit
    obtain rfl := Except.ok.inj h
    exact hsplit
  · cases h

/-- A character that neither hides another nor opens an interpolation belongs to the literal. -/
theorem split_cons {c : Char} {s : Text} (hescape : ∀ d t, c = '\\' → s ≠ d :: t)
    (hopen : ∀ t, c = '$' → s ≠ '{' :: t) :
    split (c :: s) = after [c] (prepend [c]) (split s) := by
  rw [split]
  · intro d t hc ht
    exact hescape d t hc ht
  · intro t hc ht
    exact hopen t hc ht

/-- An interpolation that is closed in front of a body becomes an interpolation of its own. -/
theorem split_of_close {s code rest : Text} (h : Region.close [.code] s = some (code, rest)) :
    split ('$' :: '{' :: s) =
      after ('$' :: '{' :: code) (interpolate code.dropLast) (split rest) := by
  rw [split]
  split
  · rename_i hnone
    cases hnone.symm.trans h
  · rename_i hsome
    cases hsome.symm.trans h
    rfl

/-- A body does not split if its first interpolation is never closed. -/
theorem split_of_open {s : Text} (h : Region.close [.code] s = none) :
    split ('$' :: '{' :: s) = .error [] := by
  rw [split]
  split
  · rfl
  · rename_i hsome
    cases h.symm.trans hsome

/-- What is read in front of the brace that closes an interpolation is the interpolation. -/
theorem interpolation_of_close {s code rest : Text}
    (h : Region.close [.code] s = some (code, rest)) :
    interpolation code.dropLast = '$' :: '{' :: code := by
  rw [interpolation, List.append_assoc, Region.closesAt_code.dropLast_append [] h]
  rfl

/-- What is read up to a backtick behind a part that is passed over starts with that part. -/
theorem exists_of_pass {u s l r : Text}
    (h : (Region.close [.template] s).map (fun p ↦ (u ++ p.1, p.2)) = some (l, r)) :
    ∃ l', Region.close [.template] s = some (l', r) ∧ l.dropLast = u ++ l'.dropLast := by
  obtain ⟨⟨l', r'⟩, hclose, he⟩ := Option.map_eq_some_iff.1 h
  obtain ⟨rfl, rfl⟩ := Prod.mk.inj he
  exact ⟨l', hclose, List.dropLast_append_of_ne_nil (Region.close_cons_ne_nil hclose)⟩

/-- A body that is closed by its backtick splits on its own, and the walk over it in its file gives
the interpolations that it splits into. -/
theorem walk_of_close {s l r : Text} (start offset : Nat)
    (h : Region.close [.template] s = some (l, r)) :
    ∃ t, split l.dropLast = .ok t ∧
      walk true start offset s = .ok (spansAt offset t, offset + Text.size l.dropLast) := by
  fun_induction walk true start offset s generalizing l with
  | case1 => cases h
  | case2 => cases h
  | case3 offset c s ih =>
    rw [Region.close_template_escape] at h
    obtain ⟨l', h, hlast⟩ := exists_of_pass h
    obtain ⟨t, ht, hwalk⟩ := ih h
    refine ⟨t.prepend ['\\', c], ?_, ?_⟩
    · rw [hlast, List.cons_append, List.singleton_append, split, ht, after]
    · rw [hwalk, hlast, spansAt_prepend, Text.size_append, Nat.add_assoc]
  | case4 offset s hcode =>
    rw [Region.close_template_of_open hcode] at h
    cases h
  | case5 offset s code rest hcode ih =>
    rw [Region.close_template_interpolation hcode] at h
    obtain ⟨l', h, hlast⟩ := exists_of_pass h
    obtain ⟨t, ht, hwalk⟩ := ih h
    refine ⟨t.interpolate code.dropLast, ?_, ?_⟩
    · rw [hlast, List.cons_append, List.cons_append,
        split_of_close (Region.close_append_of_close hcode _), ht, after]
    · rw [hwalk, hlast, spansAt_interpolate, interpolation_of_close hcode, Text.size_append,
        ← Nat.add_assoc]
      rfl
  | case6 offset c s _ _ htick =>
    obtain ⟨rfl, -⟩ := htick
    obtain ⟨rfl, -⟩ : ['`'] = l ∧ s = r := by simpa [Region.close_cons_cons, Region.next] using h
    exact ⟨⟨[], []⟩, by rw [List.dropLast_singleton, split], rfl⟩
  | case7 offset c s hescape hopen htick ih =>
    rw [Region.close_template_cons (by simpa using htick) hescape hopen] at h
    obtain ⟨l', h, hlast⟩ := exists_of_pass h
    obtain ⟨t, ht, hwalk⟩ := ih h
    -- what stands behind the character in the body also stands there in the file
    have hs : l'.dropLast ++ (['`'] ++ r) = s := by
      rw [← List.append_assoc, Region.closesAt_template.dropLast_append [] h,
        Region.exact_close _ h]
    refine ⟨t.prepend [c], ?_, ?_⟩
    · rw [hlast, List.singleton_append, split_cons, ht, after]
      · intro d u hc hu
        exact hescape d _ hc (by rw [← hs, hu]; rfl)
      · intro u hc hu
        exact hopen _ hc (by rw [← hs, hu]; rfl)
    · rw [hwalk, hlast, spansAt_prepend, Text.size_append, Nat.add_assoc]

/-- A body that is closed by its backtick can be taken apart. -/
theorem exists_ofText_of_close {body r : Text}
    (h : Region.close [.template] (body ++ '`' :: r) = some (body ++ ['`'], r)) :
    ∃ t, ofText body = .ok t := by
  obtain ⟨t, hsplit, -⟩ := walk_of_close 0 0 h
  rw [List.dropLast_concat] at hsplit
  exact ⟨t, by rw [ofText, hsplit]⟩

/-! ## Walks to the end of the text -/

/-- How a walk ends at the end of the text, which is `stop`, from what the rest of the body splits
into: it fails where that does not split, and else if a backtick should have come. -/
def ending (inLiteral : Bool) (start offset stop : Nat) :
    Except Text Template → Except TemplateError (List Span × Nat)
  | .error before => .error (.unclosedInterpolation ⟨offset + Text.size before, stop⟩)
  | .ok t =>
    if inLiteral then .error (.unclosedTemplate ⟨start - 1, stop⟩)
    else .ok (spansAt offset t, stop)

section Ending

variable (inLiteral : Bool) (start offset stop : Nat)

theorem ending_after_prepend (u : Text) (x : Except Text Template) :
    ending inLiteral start offset stop (after u (prepend u) x) =
      ending inLiteral start (offset + Text.size u) stop x := by
  cases x with
  | error before => rw [after, ending, ending, Text.size_append, Nat.add_assoc]
  | ok t => rw [after, ending, ending, spansAt_prepend]

theorem ending_after_interpolate (code : Text) (x : Except Text Template) :
    ending inLiteral start offset stop (after (interpolation code) (interpolate code) x) =
      (ending inLiteral start (offset + Text.size (interpolation code)) stop x).map fun p ↦
        (⟨offset, offset + Text.size (interpolation code)⟩ :: p.1, p.2) := by
  cases x with
  | error before => rw [after, ending, ending, Text.size_append, Nat.add_assoc]; rfl
  | ok t =>
    rw [after, ending, ending, spansAt_interpolate]
    split <;> rfl

end Ending

/-- A walk that no backtick ends goes on to the end of the text, and ends as the splitting of the
body says. -/
theorem walk_of_not_closed {inLiteral : Bool} {s : Text} (start offset : Nat)
    (h : inLiteral = true → Region.close [.template] s = none) :
    walk inLiteral start offset s =
      ending inLiteral start offset (offset + Text.size s) (split s) := by
  fun_induction walk inLiteral start offset s with
  | case1 offset hliteral => rw [split, ending, if_pos hliteral, Text.size_nil, Nat.add_zero]
  | case2 offset hliteral =>
    rw [split, ending, if_neg hliteral, Text.size_nil, Nat.add_zero]
    rfl
  | case3 offset c s ih =>
    have hsize : offset + Text.size ('\\' :: c :: s) =
        offset + Text.size ['\\', c] + Text.size s := by
      rw [Nat.add_assoc, ← Text.size_append]
      rfl
    rw [split, ending_after_prepend, hsize, ih fun hliteral ↦ by
      simpa [Region.close_template_escape] using h hliteral]
  | case4 offset s hcode =>
    rw [split_of_open hcode, ending, Text.size_nil, Nat.add_zero]
  | case5 offset s code rest hcode ih =>
    have hsize : offset + Text.size ('$' :: '{' :: s) =
        offset + Text.size ('$' :: '{' :: code) + Text.size rest := by
      rw [Nat.add_assoc, ← Text.size_append, ← Region.exact_close _ hcode]
      rfl
    rw [split_of_close hcode, ← interpolation_of_close hcode, ending_after_interpolate,
      interpolation_of_close hcode, hsize, ih fun hliteral ↦ by
      simpa [Region.close_template_interpolation hcode] using h hliteral]
  | case6 offset c s _ _ htick =>
    obtain ⟨rfl, hliteral⟩ := htick
    simpa [Region.close_cons_cons, Region.next] using h hliteral
  | case7 offset c s hescape hopen htick ih =>
    have hsize : offset + Text.size (c :: s) = offset + Text.size [c] + Text.size s := by
      rw [Nat.add_assoc, ← Text.size_append]
      rfl
    rw [split_cons hescape hopen, ending_after_prepend, hsize, ih fun hliteral ↦ by
      simpa [Region.close_template_cons (fun hc ↦ htick ⟨hc, hliteral⟩) hescape hopen] using
        h hliteral]

/-- The walk over a body on its own notes the interpolations that the body is taken apart into, and
fails as taking it apart does. -/
theorem walk_eq_ofText (start : Nat) (body : Text) :
    walk false start 0 body = (ofText body).map fun t ↦ (spansAt 0 t, Text.size body) := by
  rw [walk_of_not_closed start 0 (by simp), ofText]
  cases split body with
  | error before => rw [ending, Nat.zero_add, Nat.zero_add]; rfl
  | ok t => rw [ending, if_neg (by simp), Nat.zero_add]; rfl

end EmbeddedCss.Template
