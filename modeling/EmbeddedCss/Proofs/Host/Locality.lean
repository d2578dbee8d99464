import EmbeddedCss.Proofs.Host.Collection
import EmbeddedCss.Proofs.Host.Cutting
import EmbeddedCss.Proofs.Template.Walk
import Mathlib.Data.List.Forall2

/-! # A scan is local to template literals

Nothing in the body of a literal matters to the code around it. The main statement compares two
scans, of a file and of the same file with another body in place of that of one literal: the
literals in front are the same, the literal itself has the template of the new body, and the
literals behind it are moved by the difference of the sizes. -/

namespace EmbeddedCss

/-- The text with something else in place of the part that a span covers. -/
def Text.splice (t : Text) (s : Span) (new : Text) : Text :=
  takeBytes s.start t ++ (new ++ dropBytes s.stop t)

/-- A part of a text is replaced where it stands. -/
theorem Text.splice_append (u l r new : Text) :
    splice (u ++ (l ++ r)) ⟨size u, size u + size l⟩ new = u ++ (new ++ r) := by
  have hrest : dropBytes (size u + size l) (u ++ (l ++ r)) = r := by
    rw [← size_append, ← List.append_assoc, dropBytes_size_append]
  rw [splice, takeBytes_size_append, hrest]

/-- A span and the same span moved by `d` bytes. -/
def Span.MovedBy (d : Int) (s t : Span) : Prop :=
  (t.start : Int) = s.start + d ∧ (t.stop : Int) = s.stop + d

namespace Template

open Host Region

/-- A body that the backtick behind it closes, and no other. -/
def WellDelimited (body : Text) : Prop :=
  ∃ spans, walk true 0 0 (body ++ ['`']) = .ok (spans, Text.size body)

/-- A walk over a literal ends at the backtick that closes it. -/
theorem exists_close_of_walk {start offset : Nat} {s : Text} {p : List Span × Nat}
    (h : walk true start offset s = .ok p) : ∃ l r, close [.template] s = some (l, r) := by
  cases hclose : close [.template] s with
  | some q => exact ⟨q.1, q.2, rfl⟩
  | none =>
    rw [walk_of_not_closed start offset fun _ ↦ hclose] at h
    cases hsplit : split s with
    | error before => rw [hsplit] at h; cases h
    | ok t => rw [hsplit] at h; cases h

/-- A well-delimited body is read up to the backtick behind it. -/
theorem WellDelimited.close_eq {body : Text} (h : WellDelimited body) (r : Text) :
    close [.template] (body ++ '`' :: r) = some (body ++ ['`'], r) := by
  obtain ⟨spans, hwalk⟩ := h
  obtain ⟨l, r', hclose⟩ := exists_close_of_walk hwalk
  obtain ⟨t, -, hwalk'⟩ := walk_of_close 0 0 hclose
  have hlast := closesAt_template.dropLast_append [] hclose
  have hbody : l.dropLast = body := by
    have htext := exact_close _ hclose
    rw [← hlast, List.append_assoc] at htext
    refine Text.eq_of_append_eq_append htext ?_
    have hstop := (Prod.mk.inj (Except.ok.inj (hwalk'.symm.trans hwalk))).2
    rwa [Nat.zero_add] at hstop
  have happend := close_append_of_close hclose r
  rwa [← hlast, hbody, List.append_assoc] at happend

end Template

namespace Host

/-- A literal and the same literal moved by `d` bytes. -/
structure Tagged.MovedBy (d : Int) (f g : Tagged) : Prop where
  tag : g.tag = f.tag
  template : g.template = f.template
  wordSpan : f.wordSpan.MovedBy d g.wordSpan
  content : f.content.MovedBy d g.content

/-! ## Behind the literal -/

/-- The tag behind a backtick is the same whatever stands in front of the backtick. -/
theorem tagAfter_append_backtick (u v : Text) : tagAfter (u ++ '`' :: v) = tagAfter u := by
  rw [tagAfter, lastWord_append_cons rfl, tagAfter]

theorem counts_append_backtick (o : Options) (u v : Text) :
    counts o (u ++ '`' :: v) = counts o u := by
  rw [counts, tagAfter_append_backtick, counts]

/-- A literal behind a backtick is moved by as much as the text in front of the backtick grows. -/
theorem movedBy_ofLiteral (u v v' body : Text) (t : Template) :
    (Tagged.ofLiteral (u ++ '`' :: v) body t).MovedBy (Text.size v' - Text.size v)
      (.ofLiteral (u ++ '`' :: v') body t) := by
  refine ⟨?_, rfl, ?_, ?_⟩
  · exact (tagAfter_append_backtick u v').trans (tagAfter_append_backtick u v).symm
  · simp only [Tagged.ofLiteral, wordSpanAfter, lastWord_append_cons (c := '`') rfl, Span.MovedBy,
      Text.size_append, Text.size_cons]
    omega
  · simp only [Tagged.ofLiteral, Span.MovedBy, Text.size_append, Text.size_cons]
    omega

/-- What is collected behind a backtick is the same whatever stands in front of the backtick, only
moved. -/
theorem Collects.exists_movedBy {o : Options} (ho : o.disableComments = false) {seen : Text}
    {off : Option Nat} {ts : List Token} {found : List Tagged} (h : Collects o seen off ts found)
    (hoff : off = none) {u v : Text} (hseen : seen = u ++ '`' :: v) (v' : Text) :
    ∃ later, Collects o (u ++ '`' :: v') none ts later ∧
      List.Forall₂ (Tagged.MovedBy (Text.size v' - Text.size v)) found later := by
  induction h generalizing u with
  | nil => exact ⟨[], .nil, .nil⟩
  | @other seen off token rest found hliteral hunclosed _ ih =>
    subst hoff hseen
    obtain ⟨later, hlater, hmoved⟩ := ih (remembered_of_not ho ..) (List.append_assoc ..).symm
    refine ⟨later, .other hliteral hunclosed ?_, hmoved⟩
    rwa [remembered_of_not ho, ← List.append_assoc]
  | @pass seen off body rest found hpass _ ih =>
    subst hoff hseen
    obtain ⟨later, hlater, hmoved⟩ := ih rfl (List.append_assoc ..).symm
    refine ⟨later, .pass ?_ (by rwa [← List.append_assoc]), hmoved⟩
    rw [counts_append_backtick] at hpass ⊢
    exact fun h ↦ hpass ⟨h.1, by simp⟩
  | @take seen off body t rest found hcounts _ ht _ ih =>
    subst hoff hseen
    obtain ⟨later, hlater, hmoved⟩ := ih rfl (List.append_assoc ..).symm
    refine ⟨_, .take ?_ (by simp) ht (by rwa [← List.append_assoc]),
      .cons (movedBy_ofLiteral ..) hmoved⟩
    rwa [counts_append_backtick] at hcounts ⊢

/-! ## The literal itself -/

/-- A token that was seen and those behind it take as many bytes as all of them in a row. -/
theorem size_reverse_append_add (token : Token) (seen : Text) (ts : List Token) :
    Text.size (token.text.reverse ++ seen) + Text.size (ts.flatMap Token.text) =
      Text.size seen + Text.size ((token :: ts).flatMap Token.text) := by
  rw [Text.size_append, Text.size_reverse, List.flatMap_cons, Text.size_append]
  omega

/-- A literal that was collected, with another body. -/
def Tagged.withBody (f : Tagged) (body : Text) (t : Template) : Tagged :=
  { f with content := ⟨f.content.start, f.content.start + Text.size body⟩, template := t }

/-- With another body in place of that of one literal, the literals in front of it are collected
again, then the literal with its new body, and then those behind it, moved. -/
theorem Collects.exists_withBody {o : Options} (ho : o.disableComments = false) {seen : Text}
    {off : Option Nat} {ts : List Token} {found : List Tagged} (h : Collects o seen off ts found)
    (hoff : off = none) {i : Nat} {f : Tagged} (hi : found[i]? = some f) :
    ∃ ts₁ body ts₂, ts = ts₁ ++ .template body :: ts₂ ∧
      f.content.start = Text.size seen + Text.size (ts₁.flatMap Token.text) + 1 ∧
      f.content.stop = f.content.start + Text.size body ∧
      ∀ body' t, Template.ofText body' = .ok t →
        ∃ later, Collects o seen none (ts₁ ++ .template body' :: ts₂)
            (found.take i ++ f.withBody body' t :: later) ∧
          List.Forall₂ (Tagged.MovedBy (Text.size body' - Text.size body))
            (found.drop (i + 1)) later := by
  induction h generalizing i with
  | nil => simp at hi
  | @other seen off token rest found hliteral hunclosed _ ih =>
    obtain ⟨ts₁, body, ts₂, rfl, hstart, hstop, hcollects⟩ :=
      ih (hoff ▸ remembered_of_not ho ..) hi
    refine ⟨token :: ts₁, body, ts₂, rfl, ?_, hstop, fun body' t ht ↦ ?_⟩
    · rw [hstart, size_reverse_append_add]
    · obtain ⟨later, hlater, hmoved⟩ := hcollects body' t ht
      exact ⟨later, .other hliteral hunclosed (by rwa [remembered_of_not ho]), hmoved⟩
  | @pass seen off body rest found hpass _ ih =>
    obtain ⟨ts₁, body₁, ts₂, rfl, hstart, hstop, hcollects⟩ := ih hoff hi
    refine ⟨.template body :: ts₁, body₁, ts₂, rfl, ?_, hstop, fun body' t ht ↦ ?_⟩
    · rw [hstart, size_reverse_append_add]
    · obtain ⟨later, hlater, hmoved⟩ := hcollects body' t ht
      exact ⟨later, .pass (hoff ▸ hpass) hlater, hmoved⟩
  | @take seen off body t₀ rest found hcounts hline ht₀ hrest ih =>
    cases i with
    | zero =>
      obtain rfl : Tagged.ofLiteral seen body t₀ = f := by simpa using hi
      refine ⟨[], body, rest, rfl, rfl, rfl, fun body' t ht ↦ ?_⟩
      -- behind the closing backtick, the body is part of what is in front
      have htext : ∀ b : Text, (Token.template b).text.reverse ++ seen =
          [] ++ '`' :: (b.reverse ++ '`' :: seen) := by
        intro b
        simp [Token.text]
      obtain ⟨later, hlater, hmoved⟩ :=
        hrest.exists_movedBy ho hoff (htext body) (body'.reverse ++ '`' :: seen)
      rw [← htext] at hlater
      refine ⟨later, .take hcounts (by simp) ht hlater, ?_⟩
      have hsize : (Text.size (body'.reverse ++ '`' :: seen) : Int) -
          Text.size (body.reverse ++ '`' :: seen) = Text.size body' - Text.size body := by
        rw [Text.size_append, Text.size_append, Text.size_reverse, Text.size_reverse]
        omega
      rwa [hsize] at hmoved
    | succ i =>
      obtain ⟨ts₁, body₁, ts₂, rfl, hstart, hstop, hcollects⟩ := ih hoff (by simpa using hi)
      refine ⟨.template body :: ts₁, body₁, ts₂, rfl, ?_, hstop, fun body' t ht ↦ ?_⟩
      · rw [hstart, size_reverse_append_add]
      · obtain ⟨later, hlater, hmoved⟩ := hcollects body' t ht
        exact ⟨later, .take hcounts (hoff ▸ hline) ht₀ hlater, hmoved⟩

/-! ## The file -/

/-- The tokens of a file with another body in place of that of one literal. -/
theorem tokens_withBody {source : Text} {ts₁ ts₂ : List Token} {body body' : Text}
    (h : tokens source = ts₁ ++ .template body :: ts₂) (hbody : Template.WellDelimited body') :
    tokens (ts₁.flatMap Token.text ++ '`' :: (body' ++ '`' :: ts₂.flatMap Token.text)) =
      ts₁ ++ .template body' :: ts₂ := by
  have hliteral := (tokens_append h).1
  have hrest : tokens (ts₂.flatMap Token.text) = ts₂ := by
    rw [← List.singleton_append, ← List.append_assoc] at h
    exact (tokens_append h).1
  have hnew : tokens ('`' :: (body' ++ '`' :: ts₂.flatMap Token.text)) =
      .template body' :: ts₂ := by
    rw [tokens_backtick (hbody.close_eq _), List.dropLast_concat, hrest]
  have hfront : tokens (ts₁.flatMap Token.text ++
      (Token.template body :: ts₂).flatMap Token.text) =
        ts₁ ++ tokens ((Token.template body :: ts₂).flatMap Token.text) := by
    rw [← List.flatMap_append, ← h, flatMap_text_tokens, hliteral, h]
  rw [tokens_flatMap_append hfront (by simp [Token.text_ne_nil]) (by simp [Token.text]), hnew]

/-- Another body in place of that of one literal changes the template of this literal and moves what
is found behind it. It changes nothing else. -/
theorem scan_splice {o : Options} (ho : o.disableComments = false) {source : Text}
    {found : List Tagged} (h : scan o source = .ok found) {i : Nat} {f : Tagged}
    (hi : found[i]? = some f) {body : Text} (hbody : Template.WellDelimited body) :
    ∃ t later, Template.ofText body = .ok t ∧
      scan o (source.splice f.content body) =
        .ok (found.take i ++ f.withBody body t :: later) ∧
      List.Forall₂ (Tagged.MovedBy (Text.size body - f.content.length))
        (found.drop (i + 1)) later := by
  rw [scan_eq_ok_iff_of_not ho] at h
  obtain ⟨ts₁, body₀, ts₂, hts, hstart, hstop, hcollects⟩ := h.exists_withBody ho rfl hi
  obtain ⟨t, ht⟩ := Template.exists_ofText_of_close (hbody.close_eq [])
  obtain ⟨later, hlater, hmoved⟩ := hcollects body t ht
  have hsource : source = (ts₁.flatMap Token.text ++ ['`']) ++
      (body₀ ++ '`' :: ts₂.flatMap Token.text) := by
    rw [← flatMap_text_tokens source, hts]
    simp [Token.text]
  have hcontent : f.content = ⟨Text.size (ts₁.flatMap Token.text ++ ['`']),
      Text.size (ts₁.flatMap Token.text ++ ['`']) + Text.size body₀⟩ := by
    have hsize : f.content.start = Text.size (ts₁.flatMap Token.text ++ ['`']) := by
      rw [hstart, Text.size_append, Text.size_nil, Nat.zero_add]
      rfl
    exact Span.ext hsize (by rw [hstop, hsize])
  have hlength : f.content.length = Text.size body₀ := by
    rw [Span.length, hstop, Nat.add_sub_cancel_left]
  refine ⟨t, later, ht, ?_, by rwa [hlength]⟩
  have htext : source.splice f.content body =
      ts₁.flatMap Token.text ++ '`' :: (body ++ '`' :: ts₂.flatMap Token.text) := by
    rw [hcontent, hsource, Text.splice_append]
    simp
  rw [scan_eq_ok_iff_of_not ho, htext, tokens_withBody hts hbody]
  exact hlater

/-- A file with a literal between two others. The new body of that in the middle has a quote, the
opening of a comment, something like a tag and an escaped backtick in it. -/
theorem scan_splice_middle : ∃ f g h t later,
    scan { disableComments := false } "css`a`;css`b`+css`c`".toList = .ok [f, g, h] ∧
      Template.WellDelimited "'/*css \\`".toList ∧
      Text.splice "css`a`;css`b`+css`c`".toList g.content "'/*css \\`".toList =
        "css`a`;css`'/*css \\``+css`c`".toList ∧
      scan { disableComments := false } "css`a`;css`'/*css \\``+css`c`".toList =
        .ok (f :: g.withBody "'/*css \\`".toList t :: later) ∧
      List.Forall₂ (Tagged.MovedBy 8) [h] later := by
  have hscan : scan { disableComments := false } "css`a`;css`b`+css`c`".toList = .ok
      [⟨"css".toList, ⟨0, 3⟩, ⟨4, 5⟩, ⟨['a'], []⟩⟩, ⟨"css".toList, ⟨7, 10⟩, ⟨11, 12⟩, ⟨['b'], []⟩⟩,
        ⟨"css".toList, ⟨14, 17⟩, ⟨18, 19⟩, ⟨['c'], []⟩⟩] := by
    decide +kernel
  have hbody : Template.WellDelimited "'/*css \\`".toList := ⟨[], by decide +kernel⟩
  obtain ⟨t, later, -, hsplice, hmoved⟩ := scan_splice (i := 1) rfl hscan rfl hbody
  exact ⟨_, _, _, t, later, hscan, hbody, by decide, hsplice, hmoved⟩

end Host

end EmbeddedCss
