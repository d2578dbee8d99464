import EmbeddedCss.Proofs.Host.Placement
import EmbeddedCss.Proofs.Template.Walk
import Mathlib.Data.List.Basic

/-! # Tagged literals are well delimited

What a scan finds are outermost template literals of the file, in order and apart from each other.
The span of each covers what stands between its two backticks. The template of a literal is both
what its body splits into on its own and what a walk over the body in the file gives. -/

namespace EmbeddedCss.Host

open Region

/-! ## Literals among the tokens -/

/-- A literal is the body of one of some tokens that stand at an offset. -/
def Tagged.IsAmong (offset : Nat) (ts : List Token) (f : Tagged) : Prop :=
  ∃ ts₁ body ts₂, ts = ts₁ ++ .template body :: ts₂ ∧
    f.content.start = offset + Text.size (ts₁.flatMap Token.text) + 1 ∧
    f.content.stop = f.content.start + Text.size body ∧
    Template.ofText body = .ok f.template

/-- A literal among some tokens is among them with a token in front. -/
theorem Tagged.IsAmong.behind {seen : Text} {first : Token} {rest : List Token} {f : Tagged}
    (h : f.IsAmong (Text.size (first.text.reverse ++ seen)) rest) :
    f.IsAmong (Text.size seen) (first :: rest) := by
  obtain ⟨ts₁, body, ts₂, rfl, hstart, hstop, htemplate⟩ := h
  refine ⟨first :: ts₁, body, ts₂, rfl, ?_, hstop, htemplate⟩
  rw [hstart, List.flatMap_cons, Text.size_append, Text.size_append, Text.size_reverse]
  omega

/-- A literal that was collected is the body of one of the tokens. -/
theorem isAmong_of_collect {o : Options} {ts : List Token} {seen : Text} {off : Option Nat}
    {found : List Tagged} (h : collect o seen off ts = .ok found) {f : Tagged} (hf : f ∈ found) :
    f.IsAmong (Text.size seen) ts := by
  fun_induction collect o seen off ts generalizing found with
  | case1 seen off =>
    obtain rfl : [] = found := by simpa using h
    simp at hf
  | case2 => simp at h
  | case3 seen off body rest ih =>
    obtain ⟨later, hlater, h⟩ := exists_of_bind_eq_ok h
    split at h
    dsimp only at h
    split at h
    · -- the literal does not count
      obtain rfl : later = found := Except.ok.inj h
      exact (ih hlater hf).behind
    · obtain ⟨template, htemplate, h⟩ := exists_of_bind_eq_ok h
      obtain rfl := Except.ok.inj h
      rcases List.mem_cons.1 hf with rfl | hf
      · exact ⟨[], body, rest, rfl, rfl, rfl, htemplate⟩
      · exact (ih hlater hf).behind
  | case4 seen off token rest =>
    rename_i ih
    exact (ih h hf).behind

/-- Of two literals that were collected, the first ends in front of the second. -/
theorem pairwise_of_collect {o : Options} {ts : List Token} {seen : Text} {off : Option Nat}
    {found : List Tagged} (h : collect o seen off ts = .ok found) :
    found.Pairwise fun f g ↦ f.content.stop < g.content.start := by
  fun_induction collect o seen off ts generalizing found with
  | case1 seen off =>
    obtain rfl : [] = found := by simpa using h
    exact .nil
  | case2 => simp at h
  | case3 seen off body rest ih =>
    obtain ⟨fs, hfs, h⟩ := exists_of_bind_eq_ok h
    split at h
    dsimp only at h
    split at h
    · obtain rfl : fs = found := Except.ok.inj h
      exact ih hfs
    · obtain ⟨template, -, h⟩ := exists_of_bind_eq_ok h
      obtain rfl := Except.ok.inj h
      refine List.pairwise_cons.2 ⟨fun g hg ↦ ?_, ih hfs⟩
      obtain ⟨ts₁, _, _, -, hstart, -⟩ := isAmong_of_collect hfs hg
      rw [hstart, Text.size_append, Text.size_reverse, Token.text, List.cons_append,
        Text.size_cons, Text.size_append, Text.size_cons]
      simp only [show '`'.utf8Size = 1 from rfl]
      omega
  | case4 seen off token rest =>
    rename_i ih
    exact ih h

/-- A template literal at the start of a text is closed by its backtick. -/
theorem close_of_tokens_eq_cons {s body : Text} {ts : List Token}
    (h : tokens s = .template body :: ts) :
    ∃ r, s = '`' :: (body ++ '`' :: r) ∧
      close [.template] (body ++ '`' :: r) = some (body ++ ['`'], r) := by
  fun_induction tokens s with
  | case5 s l r hclose =>
    obtain ⟨⟨rfl⟩, -⟩ := List.cons.inj h
    have hl := closesAt_template.dropLast_append [] hclose
    have hs : l.dropLast ++ '`' :: r = s := by
      rw [← List.singleton_append, ← List.append_assoc, hl, exact_close _ hclose]
    exact ⟨r, by rw [hs], by rw [hs, hl, hclose]⟩
  | _ => simp at h

/-- The body of a template literal of a file can be taken apart. -/
theorem exists_ofText_of_tokens {source : Text} {ts rest : List Token} {body : Text}
    (h : tokens source = ts ++ .template body :: rest) : ∃ t, Template.ofText body = .ok t := by
  obtain ⟨r, -, hclose⟩ := close_of_tokens_eq_cons (tokens_append h).1
  exact Template.exists_ofText_of_close hclose

/-! ## What a scan finds -/

/-- A tagged literal is delimited by its backticks in a file, and its template is that of its
body. -/
structure Tagged.IsDelimited (source : Text) (f : Tagged) : Prop where
  /-- The body stands between two backticks. In front of the first nothing is open, and in front of
  the second only the literal itself, so that the literal lies inside no other. -/
  outermost : ∃ before body rest, source = before ++ '`' :: (body ++ '`' :: rest) ∧
    f.content = ⟨Text.size before + 1, Text.size before + 1 + Text.size body⟩ ∧
    openAfter [] before ('`' :: (body ++ '`' :: rest)) = [] ∧
    openAfter [] (before ++ '`' :: body) ('`' :: rest) = [.template]
  /-- There is a backtick in front of the body. -/
  opening : source.bytes[f.content.start - 1]? = some 0x60
  /-- There is a backtick behind the body. -/
  closing : source.bytes[f.content.stop]? = some 0x60
  /-- The body on its own splits into the template. -/
  split : Template.ofText (Text.slice source f.content) = .ok f.template
  /-- The template makes up the body. -/
  text : f.template.text = Text.slice source f.content
  /-- A walk over the file from the start of the body ends with the body, and the spans of the
  interpolations that it notes cut the template out of the file. -/
  walked : Template.walk true f.content.start f.content.start
      (Text.dropBytes f.content.start source) =
      .ok (Template.spansAt f.content.start f.template, f.content.stop) ∧
    Template.cutOut source f.content.start f.content.stop
      (Template.spansAt f.content.start f.template) = f.template

/-- The literal of a token is delimited. -/
theorem isDelimited_of_tokens {source : Text} {ts₁ ts₂ : List Token} {body : Text} {f : Tagged}
    (h : tokens source = ts₁ ++ .template body :: ts₂)
    (hstart : f.content.start = Text.size (ts₁.flatMap Token.text) + 1)
    (hstop : f.content.stop = f.content.start + Text.size body)
    (htemplate : Template.ofText body = .ok f.template) : f.IsDelimited source := by
  obtain ⟨htokens, hopen⟩ := tokens_append h
  obtain ⟨rest, hrest, hclose⟩ := close_of_tokens_eq_cons htokens
  rw [hrest] at hopen
  have hsource : source = ts₁.flatMap Token.text ++ '`' :: (body ++ '`' :: rest) := by
    rw [← hrest, ← List.flatMap_append, ← h, flatMap_text_tokens]
  generalize ts₁.flatMap Token.text = before at hsource hstart hopen
  have hat : source.StandsAt (Text.size before) (['`'] ++ (body ++ '`' :: rest)) :=
    ⟨before, hsource, rfl⟩
  have hbody : source.StandsAt f.content.start (body ++ '`' :: rest) := by
    rw [hstart]
    exact hat.advance
  have hcontent : f.content = ⟨f.content.start, f.content.start + Text.size body⟩ :=
    Span.ext rfl hstop
  have hslice : Text.slice source f.content = body := by
    rw [hcontent]
    exact hbody.slice_eq
  have hsplit := Template.split_of_ofText htemplate
  have htext : f.template.text = body := Template.text_of_split hsplit
  refine ⟨⟨before, body, rest, hsource, ?_, hopen (by simp), ?_⟩, ?_, ?_, ?_, ?_, ?_, ?_⟩
  · rw [hcontent, hstart]
  · rw [openAfter_append, List.cons_append, hopen (by simp)]
    have hlast := closesAt_template.openAfter_dropLast [] hclose
    rw [List.dropLast_concat] at hlast
    exact hlast
  · rw [hstart, Nat.add_sub_cancel]
    exact hat.getElem?_bytes (j := 0) (by decide)
  · have hafter : source.StandsAt f.content.stop (['`'] ++ rest) := by
      rw [hstop]
      exact hbody.advance
    exact hafter.getElem?_bytes (j := 0) (by decide)
  · rw [hslice, htemplate]
  · rw [hslice, htext]
  · obtain ⟨t, ht, hwalk⟩ := Template.walk_of_close f.content.start f.content.start hclose
    rw [List.dropLast_concat, hsplit] at ht
    rw [hbody.dropBytes_eq, hwalk, Except.ok.inj ht, List.dropLast_concat, hstop]
  · rw [← htext] at hbody hstop
    exact Template.cutOut_spansAt hbody hstop

/-- A literal that is found in a file is delimited. -/
theorem isDelimited_of_scan {o : Options} {source : Text} {found : List Tagged}
    (h : scan o source = .ok found) {f : Tagged} (hf : f ∈ found) : f.IsDelimited source := by
  simp only [scan] at h
  split at h
  · obtain rfl : [] = found := Except.ok.inj h
    simp at hf
  · obtain ⟨ts₁, body, ts₂, hts, hstart, hstop, htemplate⟩ := isAmong_of_collect h hf
    exact isDelimited_of_tokens hts (by simpa using hstart) hstop htemplate

/-- What is found in a file is delimited, in order, and apart from each other. -/
theorem delimited_of_scan {o : Options} {source : Text} {found : List Tagged}
    (h : scan o source = .ok found) :
    (found.Pairwise fun f g ↦ f.content.stop < g.content.start) ∧
      ∀ f ∈ found, f.IsDelimited source := by
  refine ⟨?_, fun f hf ↦ isDelimited_of_scan h hf⟩
  simp only [scan] at h
  split at h
  · obtain rfl : [] = found := Except.ok.inj h
    exact .nil
  · exact pairwise_of_collect h

/-- A file with two tagged literals. The first has a literal inside of its interpolation, and the
second an escaped backtick. -/
theorem delimited_of_scan_nested : ∃ f g,
    scan {} "css`a$\x7b`\x7d`\x7db`;css`\\``".toList = .ok [f, g] ∧
      f.content = ⟨4, 12⟩ ∧ g.content = ⟨18, 20⟩ ∧ f.content.stop < g.content.start ∧
      f.IsDelimited "css`a$\x7b`\x7d`\x7db`;css`\\``".toList ∧
      g.IsDelimited "css`a$\x7b`\x7d`\x7db`;css`\\``".toList := by
  have hscan : scan {} "css`a$\x7b`\x7d`\x7db`;css`\\``".toList = .ok
      [⟨"css".toList, ⟨0, 3⟩, ⟨4, 12⟩, ⟨['a'], [("`\x7d`".toList, ['b'])]⟩⟩,
        ⟨"css".toList, ⟨14, 17⟩, ⟨18, 20⟩, ⟨['\\', '`'], []⟩⟩] := by
    decide +kernel
  obtain ⟨hpairwise, hdelimited⟩ := delimited_of_scan hscan
  exact ⟨_, _, hscan, rfl, rfl, List.rel_of_pairwise_cons hpairwise (List.mem_singleton_self _),
    hdelimited _ (List.mem_cons_self ..), hdelimited _ (by simp)⟩

end EmbeddedCss.Host
