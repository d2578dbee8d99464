import EmbeddedCss.Document
import EmbeddedCss.Proofs.Host.Placement
import Mathlib.Data.List.Forall2

/-! # A document is its templates read one by one

The stylesheets of a file are those of its template bodies, each read on its own: neither the label
nor the numbers of the markers nor the table pass from one to the next. The code between the bodies
is kept, so that code and bodies make up the file. If a body cannot be read, the error is that of
the first such body, moved to where the body stands in the file. -/

namespace EmbeddedCss

theorem exists_eq_ok_iff {ε α : Type} {x : Except ε α} : (∃ a, x = .ok a) ↔ x.isOk = true := by
  cases x <;> simp [Except.isOk, Except.toBool]

/-- In two lists that are related one by one, each member of the second has a partner. -/
theorem exists_of_forall₂ {α β : Type} {R : α → β → Prop} {xs : List α} {ys : List β}
    (h : List.Forall₂ R xs ys) {y : β} (hy : y ∈ ys) : ∃ x ∈ xs, R x y := by
  induction h with
  | nil => simp at hy
  | @cons a b xs ys hab _ ih =>
    rcases List.mem_cons.1 hy with rfl | hy
    · exact ⟨a, List.mem_cons_self .., hab⟩
    · obtain ⟨x, hx, hR⟩ := ih hy
      exact ⟨x, List.mem_cons_of_mem _ hx, hR⟩

/-! ## Templates on their own -/

namespace Sheet

/-- The number of a template shows in an error only. -/
theorem ofTemplateAt_cases (t : Template) (o : Options) :
    (∃ sheet, ∀ index, ofTemplateAt index t o = .ok sheet) ∨
      ∃ d, ∀ index, ofTemplateAt index t o = .error (.css index d) := by
  cases h : Css.parse (Marker.encode t o).css with
  | ok root =>
    refine .inl ⟨⟨root, some (Marker.encode t o).table, (Marker.encode t o).sites⟩, fun index ↦ ?_⟩
    simp only [ofTemplateAt, h]
  | error d =>
    refine .inr ⟨{ d with span := ⟨Marker.bodyOffset (Marker.encode t o).sites d.span.start,
      Marker.bodyOffset (Marker.encode t o).sites d.span.stop⟩ }, fun index ↦ ?_⟩
    simp only [ofTemplateAt, h]

/-- With valid options, a body that can be split is read as the template it splits into. -/
theorem ofText_eq_ofTemplateAt {body : Text} {t : Template} {o : Options}
    (ho : o.validate = .ok ()) (ht : Template.ofText body = .ok t) :
    ofText body o = ofTemplateAt 0 t o := by
  rw [ofText, ht]
  change ofTemplate t o = _
  rw [ofTemplate, ho]
  rfl

end Sheet

namespace Document

/-! ## One template after the other -/

/-- The stylesheet of a tagged literal is that of its body, read on its own. -/
structure IsSheetOf (o : Options) (source : Text) (f : Host.Tagged) (e : Embedded) : Prop where
  tag : e.tag = f.tag
  content : e.content = f.content
  sheet : Sheet.ofText (Text.slice source f.content) o = .ok e.sheet

/-- The code and the bodies of the stylesheets of a file, in the order in which they stand in it. -/
def written (source : Text) (d : Document) : Text :=
  (d.sheets.flatMap fun e ↦ e.leadingCode ++ Text.slice source e.content) ++ d.trailingCode

/-- The literals that were found are read one by one. Either all of them can be read, or the first
that cannot be read gives the error. -/
theorem ofFound_cases {o : Options} {source : Text} (ho : o.validate = .ok ()) {cursor : Nat}
    {t : Text} {found : List Host.Tagged} (h : Host.Placed cursor t found)
    (hsource : source.StandsAt cursor t) (index : Nat) :
    (∃ doc, ofFound o source index cursor found = .ok doc ∧
      List.Forall₂ (IsSheetOf o source) found doc.sheets ∧ doc.written source = t) ∨
    ∃ i f d, found[i]? = some f ∧
      (∀ j < i, ∀ g, found[j]? = some g →
        ∃ sheet, Sheet.ofText (Text.slice source g.content) o = .ok sheet) ∧
      Sheet.ofText (Text.slice source f.content) o = .error (.css 0 d) ∧
      ofFound o source index cursor found =
        .error (.css (index + i) (d.shift f.content.start)) := by
  induction h generalizing index with
  | @nil cursor t =>
    refine .inl ⟨⟨[], Text.dropBytes cursor source⟩, rfl, .nil, ?_⟩
    rw [hsource.dropBytes_eq]
    rfl
  | @cons cursor code body rest f fs hcontent htemplate _ ih =>
    have hbody : Text.slice source f.content = body := by
      rw [hcontent]
      exact hsource.advance.slice_eq
    have hcode : Text.slice source ⟨cursor, f.content.start⟩ = code := by
      rw [hcontent]
      exact hsource.slice_eq
    have hread := Sheet.ofText_eq_ofTemplateAt ho htemplate
    rw [← hbody] at hread
    rcases Sheet.ofTemplateAt_cases f.template o with ⟨sheet, hsheet⟩ | ⟨d, hd⟩
    · have hstop : f.content.stop = cursor + Text.size code + Text.size body := by rw [hcontent]
      rcases ih hsource.advance.advance (index + 1) with
        ⟨doc, hdoc, hsheets, hwritten⟩ | ⟨i, g, d, hg, hbefore, herror, hfound⟩
      · refine .inl ⟨⟨⟨code, f.tag, f.content, sheet⟩ :: doc.sheets, doc.trailingCode⟩,
          ?_, .cons ⟨rfl, rfl, hread.trans (hsheet 0)⟩ hsheets, ?_⟩
        · rw [ofFound, hsheet, hstop, hdoc, hcode]
          rfl
        · rw [← hwritten]
          simp [written, hbody]
      · refine .inr ⟨i + 1, g, d, hg, ?_, herror, ?_⟩
        · rintro (_ | j) hj g' hg'
          · obtain rfl : f = g' := by simpa using hg'
            exact ⟨sheet, hread.trans (hsheet 0)⟩
          · exact hbefore j (by omega) g' hg'
        · rw [ofFound, hsheet, hstop, hfound, Nat.add_assoc, Nat.add_comm 1]
          rfl
    · refine .inr ⟨0, f, d, rfl, by simp, hread.trans (hd 0), ?_⟩
      rw [ofFound, hd]
      rfl

/-- With valid options, the document of a file is that of what is found in it. -/
theorem ofText_eq_ofFound {o : Options} {source : Text} {found : List Host.Tagged}
    (ho : o.validate = .ok ()) (hscan : Host.scan o source = .ok found) :
    ofText source o = ofFound o source 0 0 found := by
  rw [ofText, ho, hscan]
  rfl

/-- If every body that is found in a file can be read on its own, the document has these stylesheets
in order, and code and bodies make up the file. Otherwise the error is that of the first body that
cannot be read, with its span moved to where the body stands. -/
theorem ofText_of_scan {o : Options} {source : Text} {found : List Host.Tagged}
    (ho : o.validate = .ok ()) (hscan : Host.scan o source = .ok found) :
    ((∀ f ∈ found, ∃ sheet, Sheet.ofText (Text.slice source f.content) o = .ok sheet) →
      ∃ doc, ofText source o = .ok doc ∧
        List.Forall₂ (IsSheetOf o source) found doc.sheets ∧ doc.written source = source) ∧
    ((∃ f ∈ found, ∀ sheet, Sheet.ofText (Text.slice source f.content) o ≠ .ok sheet) →
      ∃ i f d, found[i]? = some f ∧
        (∀ j < i, ∀ g, found[j]? = some g →
          ∃ sheet, Sheet.ofText (Text.slice source g.content) o = .ok sheet) ∧
        Sheet.ofText (Text.slice source f.content) o = .error (.css 0 d) ∧
        ofText source o = .error (.css i (d.shift f.content.start))) := by
  rw [ofText_eq_ofFound ho hscan]
  have hcases := ofFound_cases ho (Host.placed_of_scan hscan) (Text.standsAt_zero source) 0
  simp only [Nat.zero_add] at hcases
  constructor
  · intro hall
    rcases hcases with hok | ⟨i, f, d, hf, -, herror, -⟩
    · exact hok
    · obtain ⟨sheet, hsheet⟩ := hall f (List.mem_of_getElem? hf)
      simp [herror] at hsheet
  · rintro ⟨f, hf, hfail⟩
    rcases hcases with ⟨doc, -, hsheets, -⟩ | herror
    · obtain ⟨e, -, he⟩ := exists_of_forall₂ (List.Forall₂.flip hsheets) hf
      exact absurd he.sheet (hfail _)
    · exact herror

/-- A file with two bodies that can be read, and one whose second body has a brace too many. -/
theorem ofText_of_scan_second_fails :
    (∃ doc, ofText "css`a$\x7bx\x7d:0`;css`b:1`".toList {} = .ok doc ∧ doc.sheets.length = 2 ∧
      doc.written "css`a$\x7bx\x7d:0`;css`b:1`".toList =
        "css`a$\x7bx\x7d:0`;css`b:1`".toList) ∧
    ∃ d, Sheet.ofText "$\x7by\x7d\x7d".toList {} = .error (.css 0 d) ∧
      ofText "css`a$\x7bx\x7d:0`;css`$\x7by\x7d\x7d`".toList {} = .error (.css 1 (d.shift 17)) := by
  constructor
  · have hscan : Host.scan {} "css`a$\x7bx\x7d:0`;css`b:1`".toList = .ok
        [⟨"css".toList, ⟨0, 3⟩, ⟨4, 11⟩, ⟨['a'], [(['x'], [':', '0'])]⟩⟩,
          ⟨"css".toList, ⟨13, 16⟩, ⟨17, 20⟩, ⟨['b', ':', '1'], []⟩⟩] := by
      decide +kernel
    obtain ⟨doc, hdoc, hsheets, hwritten⟩ := (ofText_of_scan (by decide +kernel) hscan).1
      fun f hf ↦ exists_eq_ok_iff.2 (by revert f; decide +kernel)
    exact ⟨doc, hdoc, hsheets.length_eq.symm, hwritten⟩
  · have hscan : Host.scan {} "css`a$\x7bx\x7d:0`;css`$\x7by\x7d\x7d`".toList = .ok
        [⟨"css".toList, ⟨0, 3⟩, ⟨4, 11⟩, ⟨['a'], [(['x'], [':', '0'])]⟩⟩,
          ⟨"css".toList, ⟨13, 16⟩, ⟨17, 22⟩, ⟨[], [(['y'], ['\x7d'])]⟩⟩] := by
      decide +kernel
    obtain ⟨i, f, d, hf, hbefore, herror, hdoc⟩ := (ofText_of_scan (by decide +kernel) hscan).2
      ⟨_, List.mem_of_getElem? (i := 1) rfl, not_exists.1 <| mt exists_eq_ok_iff.1 (by decide +kernel)⟩
    match i with
    | 0 =>
      obtain rfl := Option.some.inj hf
      have hread : (Sheet.ofText "a$\x7bx\x7d:0".toList {}).isOk = true := by decide +kernel
      obtain ⟨sheet, hsheet⟩ := exists_eq_ok_iff.2 hread
      exact absurd (hsheet.symm.trans herror) (by simp)
    | 1 =>
      obtain rfl := Option.some.inj hf
      exact ⟨d, herror, hdoc⟩
    | i + 2 => cases hf

end Document

end EmbeddedCss
