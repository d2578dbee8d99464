import EmbeddedCss.Proofs.Host.Collection
import EmbeddedCss.Proofs.Host.Cutting
import EmbeddedCss.Proofs.Host.Delimiting

/-! # What comments turn off

A comment can turn off the literals whose tag starts on the line after it. Only the line named last
is remembered, so that a later comment of this kind takes back what an earlier one said.

The main statement compares the scans of a file with and without such comments. A literal is turned
off exactly if a comment in front of it ends on the line before that of its tag and none ends on the
line of its tag itself. -/

namespace EmbeddedCss.Host

/-- Whether a token is a comment that turns the next line off. -/
def Token.disablesNextLine : Token → Bool
  | .lineComment tail => Text.trim tail == nextLineOff
  | .blockComment tail => commentText tail == nextLineOff
  | _ => false

/-- The text of a token without the line feed that ends a comment. -/
def Token.withinLine : Token → Text
  | .lineComment tail => '/' :: '/' :: tail.takeWhile (· != '\n')
  | token => token.text

/-- The line on which a token ends, after the text `seen`. -/
def Token.endLine (seen : Text) (token : Token) : Nat :=
  lineAfter (token.withinLine.reverse ++ seen)

/-- The lines on which comments end that turn the next line off, after the text `seen`. -/
def commentLines (seen : Text) : List Token → List Nat
  | [] => []
  | token :: ts =>
    (if token.disablesNextLine then [token.endLine seen] else []) ++
      commentLines (token.text.reverse ++ seen) ts

/-- The lines on which comments in front of a literal end that turn the next line off. -/
def Tagged.commentLines (source : Text) (f : Tagged) : List Nat :=
  Host.commentLines [] (tokensWithin (f.content.start - 1) (tokens source))

/-- The line on which the tag of a literal starts. -/
def Tagged.tagLine (source : Text) (f : Tagged) : Nat :=
  lineAfter (Text.takeBytes f.wordSpan.start source)

/-- A comment in front of a literal ends on the line before that of its tag. -/
def Tagged.FollowsComment (source : Text) (f : Tagged) : Prop :=
  ∃ line ∈ f.commentLines source, f.tagLine source = line + 1

/-- A comment in front of a literal ends on the line before that of its tag, and none on the line of
its tag itself. -/
def Tagged.IsTurnedOff (source : Text) (f : Tagged) : Prop :=
  f.FollowsComment source ∧ f.tagLine source ∉ f.commentLines source

instance (source : Text) : DecidablePred (Tagged.FollowsComment source) := fun f ↦
  inferInstanceAs (Decidable (∃ line ∈ f.commentLines source, f.tagLine source = line + 1))

instance (source : Text) : DecidablePred (Tagged.IsTurnedOff source) := fun _ ↦
  inferInstanceAs (Decidable (_ ∧ _))

/-! ## Lines -/

theorem lineAfter_append (s t : Text) : lineAfter (s ++ t) = s.count '\n' + lineAfter t := by
  rw [lineAfter, lineAfter, List.count_append]
  omega

theorem lineAfter_reverse (t : Text) : lineAfter t.reverse = lineAfter t := by
  rw [lineAfter, lineAfter, List.count_reverse]

theorem lineAfter_le_append (s t : Text) : lineAfter t ≤ lineAfter (s ++ t) := by
  rw [lineAfter_append]
  omega

/-- A comment to the end of its line ends on the line on which it starts. -/
theorem endLine_lineComment (seen tail : Text) :
    (Token.lineComment tail).endLine seen = lineAfter seen := by
  have hline : '\n' ∉ tail.takeWhile (· != '\n') := by
    intro hmem
    simpa using List.all_eq_true.1 List.all_takeWhile _ hmem
  rw [Token.endLine, Token.withinLine, lineAfter_append, List.count_reverse]
  simp [List.count_eq_zero.2 hline]

/-- What a comment says, in terms of where it ends. -/
theorem disabledLine_eq (seen : Text) (token : Token) :
    token.disabledLine seen =
      if token.disablesNextLine then some (token.endLine seen + 1) else none := by
  cases token with
  | lineComment tail =>
    simp only [Token.disabledLine, Token.disablesNextLine, endLine_lineComment, beq_iff_eq]
  | blockComment tail =>
    have hline : (Token.blockComment tail).endLine seen = lineAfter (tail.reverse ++ seen) := by
      simp [Token.endLine, Token.withinLine, Token.text, lineAfter]
    simp only [Token.disabledLine, Token.disablesNextLine, hline, beq_iff_eq]
  | _ => rfl

/-! ## The lines of comments -/

theorem commentLines_append (seen : Text) (ts₁ ts₂ : List Token) :
    commentLines seen (ts₁ ++ ts₂) = commentLines seen ts₁ ++
      commentLines ((ts₁.flatMap Token.text).reverse ++ seen) ts₂ := by
  induction ts₁ generalizing seen with
  | nil => rfl
  | cons token ts₁ ih => simp [commentLines, ih]

/-- A comment ends on a line that its text reaches. -/
theorem endLine_le (seen : Text) (token : Token) :
    lineAfter seen ≤ token.endLine seen ∧
      token.endLine seen ≤ lineAfter (token.text.reverse ++ seen) := by
  refine ⟨lineAfter_le_append _ _, ?_⟩
  cases token with
  | lineComment tail =>
    rw [endLine_lineComment]
    exact lineAfter_le_append _ _
  | _ => exact Nat.le_refl _

/-- Comments end behind what was seen. -/
theorem lineAfter_le_of_mem {ts : List Token} {seen : Text} {line : Nat}
    (h : line ∈ commentLines seen ts) : lineAfter seen ≤ line := by
  induction ts generalizing seen with
  | nil => simp [commentLines] at h
  | cons token ts ih =>
    have hle := endLine_le seen token
    rcases List.mem_append.1 h with h | h
    · obtain rfl : line = token.endLine seen := by
        split at h <;> simp_all
      exact hle.1
    · exact Nat.le_trans (Nat.le_trans hle.1 hle.2) (ih h)

/-- Later comments end on later lines, or on the same. -/
theorem pairwise_commentLines (seen : Text) (ts : List Token) :
    (commentLines seen ts).Pairwise (· ≤ ·) := by
  induction ts generalizing seen with
  | nil => exact .nil
  | cons token ts ih =>
    refine List.pairwise_append.2 ⟨?_, ih _, fun line h line' h' ↦ ?_⟩
    · split
      · exact List.pairwise_singleton _ _
      · exact .nil
    · obtain rfl : line = token.endLine seen := by
        split at h <;> simp_all
      exact Nat.le_trans (endLine_le seen token).2 (lineAfter_le_of_mem h')

/-- A line of a comment comes from a comment. -/
theorem exists_of_mem_commentLines {ts : List Token} {seen : Text} {line : Nat}
    (h : line ∈ commentLines seen ts) : ∃ ts₁ token ts₂, ts = ts₁ ++ token :: ts₂ ∧
      token.disablesNextLine = true ∧
      line = token.endLine ((ts₁.flatMap Token.text).reverse ++ seen) := by
  induction ts generalizing seen with
  | nil => simp [commentLines] at h
  | cons token ts ih =>
    rcases List.mem_append.1 h with h | h
    · split at h
      · exact ⟨[], token, ts, rfl, by assumption, by simpa using h⟩
      · simp at h
    · obtain ⟨ts₁, comment, ts₂, rfl, hcomment, hline⟩ := ih h
      exact ⟨token :: ts₁, comment, ts₂, rfl, hcomment, by simpa using hline⟩

/-- The tag of a literal starts on no earlier line than the comments in front of it end, for the
look to the left stops at a slash of the comment at the latest. -/
theorem le_tagLine_of_mem {ts : List Token} (hclosed : ∀ token ∈ ts, token.IsClosed) {line : Nat}
    (h : line ∈ commentLines [] ts) : line ≤ tagLine (ts.flatMap Token.text).reverse := by
  obtain ⟨ts₁, token, ts₂, rfl, hcomment, rfl⟩ := exists_of_mem_commentLines h
  -- some slash of the comment stands on the line on which it ends
  obtain ⟨u, v, huv, hline⟩ : ∃ u v, token.text.reverse ++ (ts₁.flatMap Token.text).reverse =
      u ++ '/' :: v ∧ token.endLine (ts₁.flatMap Token.text).reverse ≤ lineAfter v := by
    cases token with
    | lineComment tail =>
      refine ⟨tail.reverse, '/' :: (ts₁.flatMap Token.text).reverse, by simp [Token.text], ?_⟩
      rw [endLine_lineComment]
      exact lineAfter_le_append ['/'] _
    | blockComment tail =>
      obtain ⟨t, rfl⟩ := hclosed (.blockComment tail) (by simp)
      refine ⟨[], '*' :: ((Token.blockComment t).text.reverse ++ (ts₁.flatMap Token.text).reverse),
        by simp [Token.text], ?_⟩
      simp [Token.endLine, Token.withinLine, Token.text, lineAfter]
    | _ => simp [Token.disablesNextLine] at hcomment
  have htext : ((ts₁ ++ token :: ts₂).flatMap Token.text).reverse =
      ((ts₂.flatMap Token.text).reverse ++ u) ++ '/' :: v := by
    rw [List.append_assoc, ← huv]
    simp
  rw [tagLine, htext, lastWord_append_cons rfl, List.append_nil]
  exact Nat.le_trans hline (Nat.le_trans (lineAfter_le_append ['/'] v) (lineAfter_le_append _ _))

/-! ## The line that is remembered -/

/-- The line that is turned off after some tokens. -/
def offAfter (ts : List Token) : Option Nat := (commentLines [] ts).getLast?.map (· + 1)

theorem offAfter_concat {o : Options} (ho : o.disableComments = true) (ts : List Token)
    (token : Token) : offAfter (ts ++ [token]) =
      remembered o (ts.flatMap Token.text).reverse (offAfter ts) token := by
  rw [offAfter, commentLines_append, remembered, if_pos ho, disabledLine_eq, List.append_nil]
  cases hcomment : token.disablesNextLine with
  | true => simp [commentLines, hcomment]
  | false => simp [commentLines, hcomment, offAfter]

/-- The last of some lines in order is that before `line` if that is one of them and `line` itself
is not. -/
theorem getLast?_eq_some_iff_of_le {lines : List Nat} (hsorted : lines.Pairwise (· ≤ ·))
    {line : Nat} (hle : ∀ l ∈ lines, l ≤ line) :
    lines.getLast?.map (· + 1) = some line ↔ (∃ l ∈ lines, line = l + 1) ∧ line ∉ lines := by
  rcases List.eq_nil_or_concat lines with rfl | ⟨before, last, rfl⟩
  · simp
  rw [List.concat_eq_append] at hsorted hle ⊢
  have hmax : ∀ l ∈ before ++ [last], l ≤ last := by
    intro l hl
    rcases List.mem_append.1 hl with hl | hl
    · exact (List.pairwise_append.1 hsorted).2.2 l hl last (List.mem_singleton_self _)
    · exact Nat.le_of_eq (List.mem_singleton.1 hl)
  have hmem : last ∈ before ++ [last] := by simp
  rw [List.getLast?_concat, Option.map_some, Option.some.injEq]
  constructor
  · rintro rfl
    refine ⟨⟨last, hmem, rfl⟩, fun hline ↦ ?_⟩
    exact absurd (hmax _ hline) (by omega)
  · rintro ⟨⟨l, hl, rfl⟩, hline⟩
    -- the last line lies between the two, and is not the second
    have hne : last ≠ l + 1 := by
      rintro rfl
      exact hline hmem
    have := hmax l hl
    have := hle last hmem
    omega

/-- What stands in front of the word in front of a literal. -/
theorem takeBytes_wordSpanAfter (seen r : Text) :
    Text.takeBytes (wordSpanAfter seen).start (seen.reverse ++ r) = (lastWord seen).2.reverse := by
  obtain ⟨space, -, hspace⟩ := exists_append_lastWord seen
  have hreverse : seen.reverse =
      (lastWord seen).2.reverse ++ ((lastWord seen).1 ++ space.reverse) := by
    have := congrArg List.reverse hspace
    simpa using this
  rw [hreverse, List.append_assoc, wordSpanAfter, ← Text.size_reverse (lastWord seen).2,
    Text.takeBytes_size_append]

/-- A literal is turned off if the line of its tag is remembered. -/
theorem isTurnedOff_ofLiteral_iff {source : Text} {ts rest : List Token} {body : Text}
    (h : tokens source = ts ++ .template body :: rest) (t : Template) :
    (Tagged.ofLiteral (ts.flatMap Token.text).reverse body t).IsTurnedOff source ↔
      offAfter ts = some (tagLine (ts.flatMap Token.text).reverse) := by
  have hlines : (Tagged.ofLiteral (ts.flatMap Token.text).reverse body t).commentLines source =
      commentLines [] ts := by
    rw [Tagged.commentLines, h, Tagged.ofLiteral, Nat.add_sub_cancel, Text.size_reverse,
      tokensWithin_append]
  have hline : (Tagged.ofLiteral (ts.flatMap Token.text).reverse body t).tagLine source =
      tagLine (ts.flatMap Token.text).reverse := by
    have hsource : source = (ts.flatMap Token.text).reverse.reverse ++
        (Token.template body :: rest).flatMap Token.text := by
      rw [List.reverse_reverse, ← List.flatMap_append, ← h, flatMap_text_tokens]
    rw [Tagged.tagLine, Tagged.ofLiteral, hsource, takeBytes_wordSpanAfter, lineAfter_reverse,
      tagLine]
  rw [Tagged.IsTurnedOff, Tagged.FollowsComment, hlines, hline, offAfter,
    getLast?_eq_some_iff_of_le (pairwise_commentLines _ _)]
  exact fun line hmem ↦ le_tagLine_of_mem (fun _ ↦ isClosed_of_tokens h (by simp)) hmem

/-! ## The two scans -/

/-- Collecting with comments that turn lines off gives what collecting without them gives, less what
is turned off. -/
theorem Collects.exists_filter {o : Options} (ho : o.disableComments = true) {source seen : Text}
    {off : Option Nat} {ts : List Token} {found : List Tagged} (h : Collects o seen off ts found)
    (before : List Token) (hts : tokens source = before ++ ts)
    (hseen : seen = (before.flatMap Token.text).reverse) (hoff : off = offAfter before) :
    ∃ all, Collects { o with disableComments := false } seen none ts all ∧
      found = all.filter fun f ↦ ¬ f.IsTurnedOff source := by
  -- the rest of the tokens is read behind one more token
  have behind : ∀ {token : Token} {rest : List Token} {before : List Token},
      tokens source = before ++ token :: rest → tokens source = (before ++ [token]) ++ rest ∧
        token.text.reverse ++ (before.flatMap Token.text).reverse =
          ((before ++ [token]).flatMap Token.text).reverse := by
    intro token rest before h
    exact ⟨by rw [h, List.append_assoc, List.singleton_append], by simp⟩
  induction h generalizing before with
  | nil => exact ⟨[], .nil, rfl⟩
  | @other seen off token rest found hliteral hunclosed _ ih =>
    subst hseen hoff
    obtain ⟨all, hall, hfilter⟩ := ih _ (behind hts).1 (behind hts).2 (offAfter_concat ho ..).symm
    refine ⟨all, .other hliteral hunclosed ?_, hfilter⟩
    rwa [remembered_of_not rfl]
  | @pass seen off body rest found hpass _ ih =>
    subst hseen hoff
    have hoff : offAfter before = offAfter (before ++ [.template body]) := by
      rw [offAfter_concat ho, remembered_template]
    obtain ⟨all, hall, rfl⟩ := ih _ (behind hts).1 (behind hts).2 hoff
    by_cases hcounts : counts o (before.flatMap Token.text).reverse = true
    · -- without comments the literal is found, but it is turned off
      obtain ⟨t, ht⟩ := exists_ofText_of_tokens hts
      have hturned := (isTurnedOff_ofLiteral_iff hts t).2
        (Decidable.not_not.1 fun hne ↦ hpass ⟨hcounts, hne⟩)
      refine ⟨_, .take hcounts (by simp) ht hall, ?_⟩
      rw [List.filter_cons_of_neg (by simpa using hturned)]
    · exact ⟨all, .pass (fun h ↦ hcounts h.1) hall, rfl⟩
  | @take seen off body t rest found hcounts hline ht _ ih =>
    subst hseen hoff
    have hoff : offAfter before = offAfter (before ++ [.template body]) := by
      rw [offAfter_concat ho, remembered_template]
    obtain ⟨all, hall, rfl⟩ := ih _ (behind hts).1 (behind hts).2 hoff
    have hturned := mt (isTurnedOff_ofLiteral_iff hts t).1 hline
    refine ⟨_, .take hcounts (by simp) ht hall, ?_⟩
    rw [List.filter_cons_of_pos (by simpa using hturned)]

/-- A comment that turns the file off leaves nothing. Otherwise the literals that are found are
those found without regard to comments, less those that are turned off: a comment in front of them
ends on the line before that of their tag, and none on the line of their tag itself. -/
theorem scan_eq_filter {o : Options} (ho : o.disableComments = true) {source : Text}
    {found : List Tagged} (h : scan o source = .ok found) :
    ((∃ token ∈ tokens source, token.disablesFile = true) → found = []) ∧
      ((¬ ∃ token ∈ tokens source, token.disablesFile = true) →
        ∃ all, scan { o with disableComments := false } source = .ok all ∧
          found = all.filter fun f ↦ ¬ f.IsTurnedOff source) := by
  rcases scan_eq_ok_iff.1 h with ⟨-, hoff, rfl⟩ | ⟨hoff, hcollects⟩
  · exact ⟨fun _ ↦ rfl, fun hnot ↦ absurd hoff hnot⟩
  · refine ⟨fun hfile ↦ absurd ⟨ho, hfile⟩ hoff, fun _ ↦ ?_⟩
    obtain ⟨all, hall, hfilter⟩ := hcollects.exists_filter ho [] rfl rfl rfl
    exact ⟨all, (scan_eq_ok_iff_of_not rfl).2 hall, hfilter⟩

/-- A comment turns off the literal on the line after it, and not the one after that. -/
theorem scan_eq_filter_of_one_comment : ∃ f g,
    scan {} "// csslit-disable-next-line\ncss`a`;\ncss`b`".toList = .ok [g] ∧
      scan { disableComments := false } "// csslit-disable-next-line\ncss`a`;\ncss`b`".toList =
        .ok [f, g] ∧
      [g] = [f, g].filter fun f ↦
        ¬ f.IsTurnedOff "// csslit-disable-next-line\ncss`a`;\ncss`b`".toList := by
  have hscan : scan {} "// csslit-disable-next-line\ncss`a`;\ncss`b`".toList =
      .ok [⟨"css".toList, ⟨36, 39⟩, ⟨40, 41⟩, ⟨['b'], []⟩⟩] := by
    decide +kernel
  have hscan' : scan { disableComments := false }
      "// csslit-disable-next-line\ncss`a`;\ncss`b`".toList =
        .ok [⟨"css".toList, ⟨28, 31⟩, ⟨32, 33⟩, ⟨['a'], []⟩⟩,
          ⟨"css".toList, ⟨36, 39⟩, ⟨40, 41⟩, ⟨['b'], []⟩⟩] := by
    decide +kernel
  obtain ⟨all, hall, hfilter⟩ := (scan_eq_filter rfl hscan).2 (by decide +kernel)
  obtain rfl := Except.ok.inj (hscan'.symm.trans hall)
  exact ⟨_, _, hscan, hall, hfilter⟩

/-- A literal is found on the line after a comment that turns this line off, because another such
comment stands in front of it on the same line. -/
theorem scan_ne_filter_of_two_comments : ∃ found all,
    scan {} "// csslit-disable-next-line\n/* csslit-disable-next-line */ css`a`".toList =
        .ok found ∧
      scan { disableComments := false }
        "// csslit-disable-next-line\n/* csslit-disable-next-line */ css`a`".toList = .ok all ∧
      (¬ ∃ token ∈ tokens
        "// csslit-disable-next-line\n/* csslit-disable-next-line */ css`a`".toList,
          token.disablesFile = true) ∧
      found ≠ all.filter fun f ↦ ¬ f.FollowsComment
        "// csslit-disable-next-line\n/* csslit-disable-next-line */ css`a`".toList := by
  refine ⟨[⟨"css".toList, ⟨59, 62⟩, ⟨63, 64⟩, ⟨['a'], []⟩⟩],
    [⟨"css".toList, ⟨59, 62⟩, ⟨63, 64⟩, ⟨['a'], []⟩⟩], ?_, ?_, ?_, ?_⟩ <;> decide +kernel

end EmbeddedCss.Host
