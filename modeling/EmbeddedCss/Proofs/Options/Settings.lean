import EmbeddedCss.Options.Toml

/-! # Writing settings

A list of settings can be written as a TOML file, whatever its strings hold, and the reader gives
the list back: `settings_write`. So the options that a file can give are the valid ones. -/

namespace EmbeddedCss.Options.Toml

/-! ## The written form -/

/-- A character in a string in double quotes. Quotes, backslashes and controls are escaped. -/
def writeChar (c : Char) : Text :=
  if c = '"' ∨ c = '\\' then ['\\', c]
  else if isText c then [c]
  else ['\\', 'x', Nat.digitChar (c.toNat / 16), Nat.digitChar (c.toNat % 16)]

/-- A string in double quotes. -/
def writeString (s : Text) : Text := '"' :: (s.flatMap writeChar ++ ['"'])

/-- The strings of a list, each with a comma after it, and the closing bracket. -/
def writeElements (texts : List Text) : Text :=
  texts.flatMap (fun s ↦ writeString s ++ [',']) ++ [']']

/-- A value. -/
def writeValue : Value → Text
  | .string s => writeString s
  | .strings texts => '[' :: writeElements texts
  | .boolean true => "true".toList
  | .boolean false => "false".toList

/-- Settings, each on a line. -/
def write (entries : List (Text × Value)) : Text :=
  entries.flatMap fun e ↦ e.1 ++ '=' :: writeValue e.2 ++ ['\n']

/-! ## Strings are read back -/

theorem codePoint?_digits {n : Nat} (h : n < 128) :
    codePoint? [Nat.digitChar (n / 16), Nat.digitChar (n % 16)] = some (Char.ofNat n) := by
  revert n
  decide +kernel

/-- A character that is not escaped is no control, and the controls are below 128. -/
theorem toNat_lt_of_not_isText {c : Char} (h : isText c = false) : c.toNat < 128 := by
  simp only [isText, Bool.or_eq_false_iff, Bool.and_eq_false_iff, decide_eq_false_iff_not,
    bne_eq_false_iff_eq] at h
  omega

theorem basic_writeChar (c : Char) (t : Text) :
    basic (writeChar c ++ t) = push c <$> basic t := by
  unfold writeChar
  split
  · rename_i h
    obtain rfl | rfl := h <;> simp [basic, escape?]
  · rename_i h
    obtain ⟨hquote, hescape⟩ := not_or.1 h
    split
    · rename_i htext
      simp [basic, hescape, htext]
    · rename_i hcontrol
      have hlt := toNat_lt_of_not_isText (Bool.eq_false_iff.2 hcontrol)
      simp [basic, codePoint?_digits hlt, Char.ofNat_toNat]

theorem basic_flatMap_writeChar (s rest : Text) :
    basic (s.flatMap writeChar ++ '"' :: rest) = some (s, rest) := by
  induction s with
  | nil => rfl
  | cons c s ih =>
    rw [List.flatMap_cons, List.append_assoc, basic_writeChar, ih]
    rfl

/-- A character in a string never starts with a quote. -/
theorem exists_writeChar_eq_cons (c : Char) : ∃ d t, writeChar c = d :: t ∧ d ≠ '"' := by
  unfold writeChar
  split
  · exact ⟨'\\', [c], rfl, by decide⟩
  · rename_i h
    obtain ⟨hquote, -⟩ := not_or.1 h
    split
    · exact ⟨c, [], rfl, hquote⟩
    · exact ⟨'\\', _, rfl, by decide⟩

/-- A string in front of any text, in the form that the reader takes apart. -/
theorem writeString_append (s rest : Text) :
    writeString s ++ rest = '"' :: (s.flatMap writeChar ++ '"' :: rest) := by
  simp [writeString]

/-- The empty string and a quote behind it would open a string of several lines. -/
theorem string_writeString (s rest : Text) (h : rest.head? ≠ some '"') :
    string (writeString s ++ rest) = some (s, rest) := by
  have hline : lineString (writeString s ++ rest) = some (s, rest) := by
    rw [writeString_append, lineString, basic_flatMap_writeChar]
  rw [← hline]
  cases s with
  | nil =>
    cases rest with
    | nil => rfl
    | cons d rest =>
      have hd : d ≠ '"' := fun hd ↦ h (by simp [hd])
      simp [string, writeString, hd]
  | cons c s =>
    obtain ⟨d, t, hc, hd⟩ := exists_writeChar_eq_cons c
    simp [string, writeString, hc, hd]

/-! ## Values are read back -/

theorem writeElements_cons_append (s : Text) (texts : List Text) (rest : Text) :
    writeElements (s :: texts) ++ rest =
      writeString s ++ ',' :: (writeElements texts ++ rest) := by
  simp [writeElements]

theorem elements_writeElements (texts : List Text) (rest : Text) {fuel : Nat}
    (h : texts.length < fuel) :
    elements fuel (writeElements texts ++ rest) = some (texts, rest) := by
  induction texts generalizing fuel with
  | nil =>
    obtain ⟨fuel, rfl⟩ := Nat.exists_eq_add_one.2 (Nat.zero_lt_of_lt h)
    rfl
  | cons s texts ih =>
    obtain ⟨fuel, rfl⟩ := Nat.exists_eq_add_one.2 (Nat.zero_lt_of_lt h)
    have hrest : elements fuel (writeElements texts ++ rest) = some (texts, rest) :=
      ih (by simpa using h)
    have hstring := string_writeString s (',' :: (writeElements texts ++ rest)) (by simp)
    rw [writeElements_cons_append]
    rw [writeString_append] at hstring ⊢
    simp [elements, skipGap, isInline, hstring, hrest]

theorem length_lt_length_writeElements (texts : List Text) :
    texts.length < (writeElements texts).length := by
  induction texts with
  | nil => decide
  | cons s texts ih =>
    have hshape := writeElements_cons_append s texts []
    simp only [List.append_nil] at hshape
    rw [hshape, List.length_append, List.length_cons, List.length_cons]
    omega

theorem value_writeValue (v : Value) (rest : Text) :
    value (writeValue v ++ '\n' :: rest) = some (v, '\n' :: rest) := by
  cases v with
  | string s =>
    have hstring := string_writeString s ('\n' :: rest) (by simp)
    rw [writeValue]
    rw [writeString_append] at hstring ⊢
    simp [value, Text.dropStart?, hstring]
  | strings texts =>
    have hfuel : texts.length < ('[' :: (writeElements texts ++ '\n' :: rest)).length := by
      have := length_lt_length_writeElements texts
      simp only [List.length_append, List.length_cons]
      omega
    simp only [writeValue, List.cons_append, value, elements_writeElements texts _ hfuel,
      Option.map_some]
  | boolean b => cases b <;> rfl

/-! ## Settings are read back -/

/-- The written form of settings, in the form that the reader takes apart. -/
theorem write_cons (name : Text) (v : Value) (entries : List (Text × Value)) :
    write ((name, v) :: entries) = name ++ '=' :: (writeValue v ++ '\n' :: write entries) := by
  simp [write]

/-- What may be a label of markers may be a bare key. -/
theorem key_append {name : Text} (h : isLabel name = true) (rest : Text) :
    key (name ++ '=' :: rest) = some (name, '=' :: rest) := by
  simp only [isLabel, Bool.and_eq_true, Bool.not_eq_true', List.all_eq_true] at h
  have htake : (name ++ '=' :: rest).takeWhile (fun c ↦ c.isAlphanum || c == '_' || c == '-') =
      name := by
    rw [List.takeWhile_append_of_pos h.2]
    simp
  simp [key, htake, h.1]

theorem exists_eq_cons_of_isLabel {name : Text} (h : isLabel name = true) :
    ∃ c t, name = c :: t ∧ (c.isAlphanum || c == '_' || c == '-') = true := by
  cases name with
  | nil => simp [isLabel] at h
  | cons c t =>
    simp only [isLabel, List.all_cons, Bool.and_eq_true] at h
    exact ⟨c, t, rfl, h.2.1⟩

/-- No white space and no comment stands in front of a bare key. -/
theorem skipGap_append {name : Text} (h : isLabel name = true) (rest : Text) :
    skipGap false (name ++ rest) = name ++ rest := by
  obtain ⟨c, t, rfl, hc⟩ := exists_eq_cons_of_isLabel h
  have hnewline : c ≠ '\n' := by rintro rfl; cases hc
  have hreturn : c ≠ '\r' := by rintro rfl; cases hc
  have hhash : c ≠ '#' := by rintro rfl; cases hc
  have hinline : isInline c = false := by
    rw [isInline, Bool.or_eq_false_iff, beq_eq_false_iff_ne, beq_eq_false_iff_ne]
    constructor <;> rintro rfl <;> cases hc
  simp [skipGap, hreturn, hhash, hinline]

/-- A value starts with no white space. -/
theorem dropWhile_isInline_writeValue (v : Value) (rest : Text) :
    (writeValue v ++ rest).dropWhile isInline = writeValue v ++ rest := by
  cases v with
  | string s => rw [writeValue, writeString_append]; rfl
  | strings texts => rfl
  | boolean b => cases b <;> rfl

theorem endLine?_newline (rest : Text) : endLine? ('\n' :: rest) = some rest := by
  simp [endLine?, isInline, newline?]

/-- Settings that are written are read back. -/
theorem settings_write {entries : List (Text × Value)}
    (h : ∀ e ∈ entries, isLabel e.1 = true) {fuel : Nat} (hfuel : entries.length < fuel) :
    settings fuel (write entries) = some entries := by
  induction entries generalizing fuel with
  | nil =>
    obtain ⟨fuel, rfl⟩ := Nat.exists_eq_add_one.2 (Nat.zero_lt_of_lt hfuel)
    rfl
  | cons e entries ih =>
    obtain ⟨name, v⟩ := e
    obtain ⟨fuel, rfl⟩ := Nat.exists_eq_add_one.2 (Nat.zero_lt_of_lt hfuel)
    have hname : isLabel name = true := h (name, v) List.mem_cons_self
    have hrest : settings fuel (write entries) = some entries :=
      ih (fun e he ↦ h e (List.mem_cons_of_mem _ he)) (by simpa using hfuel)
    have hgap := skipGap_append hname ('=' :: (writeValue v ++ '\n' :: write entries))
    have hkey := key_append hname (writeValue v ++ '\n' :: write entries)
    rw [write_cons]
    generalize name ++ '=' :: (writeValue v ++ '\n' :: write entries) = s at hgap hkey
    cases s with
    | nil => cases hkey
    | cons c s =>
      have hequals : ∀ t : Text, ('=' :: t).dropWhile isInline = '=' :: t := fun t ↦ rfl
      simp [settings, hgap, hkey, hequals, dropWhile_isInline_writeValue, value_writeValue,
        endLine?_newline, hrest]

/-! ## Files are read back -/

theorem length_le_length_write (entries : List (Text × Value)) :
    entries.length ≤ (write entries).length := by
  induction entries with
  | nil => exact Nat.le_refl 0
  | cons e entries ih =>
    rw [write_cons]
    simp only [List.length_append, List.length_cons]
    omega

/-- Of all settings with bare keys, those are accepted in which no key stands twice and each is one
of the three with a value of its kind. -/
theorem read_write {entries : List (Text × Value)} (h : ∀ e ∈ entries, isLabel e.1 = true) :
    read (write entries) =
      if (entries.map Prod.fst).Nodup then entries.foldlM assign {} else none := by
  have hfuel : entries.length < (write entries).length + 1 :=
    Nat.lt_succ_of_le (length_le_length_write entries)
  unfold read
  split
  · rename_i t hmark
    cases entries with
    | nil => cases hmark
    | cons e entries =>
      obtain ⟨c, s, hname, hc⟩ := exists_eq_cons_of_isLabel (h e List.mem_cons_self)
      rw [write_cons, hname] at hmark
      obtain rfl : c = '\ufeff' := (List.cons.inj hmark).1
      cases hc
  · exact congrArg (Option.bind · _) (settings_write h hfuel)

end Toml

/-! ## Options -/

/-- Options as settings. -/
def toSettings (o : Options) : List (Text × Toml.Value) :=
  [("tags".toList, .strings o.tags), ("placeholder_prefix".toList, .string o.label),
    ("disable_comments".toList, .boolean o.disableComments)]

theorem read_write_toSettings (o : Options) : Toml.read (Toml.write o.toSettings) = some o := by
  have hkeys : ∀ e ∈ o.toSettings, isLabel e.1 = true := by
    intro e he
    simp only [toSettings, List.mem_cons, List.not_mem_nil, or_false] at he
    obtain rfl | rfl | rfl := he <;> rfl
  exact Toml.read_write hkeys

/-- The file that options are written to gives them back, or the error that they have. -/
theorem ofToml_write_toSettings (o : Options) :
    ofToml (Toml.write o.toSettings) = o.validate.map fun _ ↦ o := by
  rw [ofToml, read_write_toSettings]
  exact checked_eq o

/-- The valid options are what files give. -/
theorem exists_ofToml_eq_ok_iff (o : Options) :
    (∃ file, ofToml file = .ok o) ↔ o.validate = .ok () := by
  constructor
  · rintro ⟨file, h⟩
    exact (ofToml_eq_ok_iff.1 h).2
  · intro h
    exact ⟨_, ofToml_eq_ok_iff.2 ⟨read_write_toSettings o, h⟩⟩

end EmbeddedCss.Options
