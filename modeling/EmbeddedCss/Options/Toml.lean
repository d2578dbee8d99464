import EmbeddedCss.Options.Basic

/-! # Options from settings

Options can be kept in a TOML file with the keys `tags`, `placeholder_prefix` and
`disable_comments`. The reader knows as much of TOML as it takes to accept the files that set these
keys, each at most once, to a list of strings, a string and a boolean; every other file is refused,
be it no TOML at all or TOML with something else in it. -/

namespace EmbeddedCss.Options.Toml

/-- A value of a setting. -/
inductive Value where
  | string (text : Text)
  | strings (texts : List Text)
  | boolean (value : Bool)
deriving DecidableEq, Repr

/-! ## White space and comments -/

/-- White space inside a line. -/
def isInline (c : Char) : Bool := c == ' ' || c == '\t'

/-- A character that may stand in comments and strings as it is: no control but the tab. -/
def isText (c : Char) : Bool := c == '\t' || (0x20 ≤ c.toNat && c.toNat != 0x7f)

/-- What follows a line end. -/
def newline? : Text → Option Text
  | '\n' :: t => some t
  | '\r' :: '\n' :: t => some t
  | _ => none

/-- What follows white space, line ends and comments. -/
def skipGap (inComment : Bool) : Text → Text
  | [] => []
  | '\n' :: t => skipGap false t
  | '\r' :: '\n' :: t => skipGap false t
  | c :: t =>
    if inComment then if isText c then skipGap true t else c :: t
    else if isInline c then skipGap false t
    else if c = '#' then skipGap true t
    else c :: t

/-! ## Strings -/

/-- The value of a hexadecimal digit. -/
def hexDigit? (c : Char) : Option Nat :=
  if c.isDigit then some (c.toNat - '0'.toNat)
  else if 'a' ≤ c ∧ c ≤ 'f' then some (c.toNat - 'a'.toNat + 10)
  else if 'A' ≤ c ∧ c ≤ 'F' then some (c.toNat - 'A'.toNat + 10)
  else none

/-- The character with a code point in hexadecimal, if there is one. -/
def codePoint? (digits : List Char) : Option Char := do
  let n ← digits.foldlM (fun n c ↦ (16 * n + ·) <$> hexDigit? c) 0
  if n.isValidChar then some (Char.ofNat n) else none

/-- The character that an escape of one letter stands for. -/
def escape? : Char → Option Char
  | 'b' => some '\x08'
  | 't' => some '\t'
  | 'n' => some '\n'
  | 'f' => some '\x0c'
  | 'r' => some '\r'
  | 'e' => some '\x1b'
  | '"' => some '"'
  | '\\' => some '\\'
  | _ => none

/-- Add a character in front of the string that was read. -/
def push (c : Char) (p : Text × Text) : Text × Text := (c :: p.1, p.2)

/-- The string in double quotes whose opening quote was read. -/
def basic : Text → Option (Text × Text)
  | [] => none
  | '"' :: t => some ([], t)
  | '\\' :: 'x' :: a :: b :: t => do push (← codePoint? [a, b]) <$> basic t
  | '\\' :: 'u' :: a :: b :: c :: d :: t => do push (← codePoint? [a, b, c, d]) <$> basic t
  | '\\' :: 'U' :: a :: b :: c :: d :: e :: f :: g :: h :: t => do
    push (← codePoint? [a, b, c, d, e, f, g, h]) <$> basic t
  | '\\' :: c :: t => do push (← escape? c) <$> basic t
  | c :: t => if isText c then push c <$> basic t else none

/-- The string in single quotes whose opening quote was read. -/
def literal : Text → Option (Text × Text)
  | [] => none
  | '\'' :: t => some ([], t)
  | c :: t => if isText c then push c <$> literal t else none

/-- How many of a quote stand at the start of a text. -/
def quotes (quote : Char) (s : Text) : Nat := (s.takeWhile (· == quote)).length

/-- The end of a string of several lines, where there are three quotes or more: up to two of them
belong to the string, in front of the three that close it. -/
def closeLines (quote : Char) (s : Text) : Option (Text × Text) :=
  let n := quotes quote s
  if n ≤ 5 then some (List.replicate (n - 3) quote, s.drop n) else none

/-- Whether a line ends after white space: what a backslash needs to join two lines. -/
def endsLine (s : Text) : Bool := (newline? (s.dropWhile isInline)).isSome

/-- The string of several lines in double quotes whose opening was read. While `joining`, white
space and line ends are left out. -/
def basicLines (joining : Bool) : Text → Option (Text × Text)
  | [] => none
  | '\\' :: 'x' :: a :: b :: t => do push (← codePoint? [a, b]) <$> basicLines false t
  | '\\' :: 'u' :: a :: b :: c :: d :: t => do
    push (← codePoint? [a, b, c, d]) <$> basicLines false t
  | '\\' :: 'U' :: a :: b :: c :: d :: e :: f :: g :: h :: t => do
    push (← codePoint? [a, b, c, d, e, f, g, h]) <$> basicLines false t
  | '\\' :: c :: t =>
    if endsLine (c :: t) then basicLines true (c :: t)
    else do push (← escape? c) <$> basicLines false t
  | '\r' :: '\n' :: t =>
    if joining then basicLines true t
    else (basicLines false t).map fun p ↦ ('\r' :: '\n' :: p.1, p.2)
  | c :: t =>
    if joining && (isInline c || c == '\n') then basicLines true t
    else if 3 ≤ quotes '"' (c :: t) then closeLines '"' (c :: t)
    else if isText c || c == '\n' then push c <$> basicLines false t
    else none

/-- The string of several lines in single quotes whose opening was read. -/
def literalLines : Text → Option (Text × Text)
  | [] => none
  | '\r' :: '\n' :: t => (literalLines t).map fun p ↦ ('\r' :: '\n' :: p.1, p.2)
  | c :: t =>
    if 3 ≤ quotes '\'' (c :: t) then closeLines '\'' (c :: t)
    else if isText c || c == '\n' then push c <$> literalLines t
    else none

/-- A line end right after the opening of a string of several lines does not count. -/
def skipNewline (s : Text) : Text := (newline? s).getD s

/-- A string on one line. -/
def lineString : Text → Option (Text × Text)
  | '"' :: t => basic t
  | '\'' :: t => literal t
  | _ => none

/-- A string of any kind. -/
def string : Text → Option (Text × Text)
  | '"' :: '"' :: '"' :: t => basicLines false (skipNewline t)
  | '\'' :: '\'' :: '\'' :: t => literalLines (skipNewline t)
  | s => lineString s

/-! ## Values, keys and files -/

/-- The strings of a list whose opening bracket, or a comma in it, was read. A comma may stand
after the last string. The fuel bounds the number of strings. -/
def elements : (fuel : Nat) → Text → Option (List Text × Text)
  | 0, _ => none
  | fuel + 1, s =>
    match skipGap false s with
    | ']' :: t => some ([], t)
    | s => do
      let (first, s) ← string s
      match skipGap false s with
      | ',' :: t => do
        let (rest, t) ← elements fuel t
        return (first :: rest, t)
      | ']' :: t => return ([first], t)
      | _ => none

/-- A value. -/
def value (s : Text) : Option (Value × Text) :=
  match s with
  | '[' :: t => (elements s.length t).map fun p ↦ (.strings p.1, p.2)
  | _ =>
    match Text.dropStart? "true".toList s, Text.dropStart? "false".toList s with
    | some t, _ => some (.boolean true, t)
    | none, some t => some (.boolean false, t)
    | none, none => (string s).map fun p ↦ (.string p.1, p.2)

/-- A key, bare or in quotes. -/
def key (s : Text) : Option (Text × Text) :=
  let bare := s.takeWhile fun c ↦ c.isAlphanum || c == '_' || c == '-'
  if bare.isEmpty then lineString s else some (bare, s.drop bare.length)

/-- What follows the line that a setting stands on, if nothing but a comment is left of it. -/
def endLine? (s : Text) : Option Text :=
  let s := s.dropWhile isInline
  let s := match s with
    | '#' :: t => t.dropWhile isText
    | s => s
  if s.isEmpty then some [] else newline? s

/-- The settings of a file. The fuel bounds their number. -/
def settings : (fuel : Nat) → Text → Option (List (Text × Value))
  | 0, _ => none
  | fuel + 1, s =>
    match skipGap false s with
    | [] => some []
    | s => do
      let (name, s) ← key s
      match s.dropWhile isInline with
      | '=' :: s => do
        let (v, s) ← value (s.dropWhile isInline)
        let rest ← settings fuel (← endLine? s)
        return (name, v) :: rest
      | _ => none

/-- Options with one of the settings made. -/
def assign (o : Options) : Text × Value → Option Options
  | (name, .strings tags) => if name = "tags".toList then some { o with tags } else none
  | (name, .string label) =>
    if name = "placeholder_prefix".toList then some { o with label } else none
  | (name, .boolean disableComments) =>
    if name = "disable_comments".toList then some { o with disableComments } else none

/-- The options of a file, not checked yet. A byte order mark in front of it does not count. -/
def read (file : Text) : Option Options := do
  let file := match file with
    | '\ufeff' :: t => t
    | t => t
  let entries ← settings (file.length + 1) file
  if (entries.map Prod.fst).Nodup then entries.foldlM assign {} else none

end Toml

/-- The options of a TOML file. They have to be valid. -/
def ofToml (file : Text) : Except OptionsError Options :=
  match Toml.read file with
  | none => .error .unreadable
  | some o => do
    o.validate
    return o

/-- Options are given on only if they are valid. -/
theorem checked_eq (o : Options) :
    (do o.validate; return o : Except OptionsError Options) =
      o.validate.map fun _ ↦ o := by
  cases o.validate <;> rfl

/-- A file gives the options that are read from it if they are valid, and no others. -/
theorem ofToml_eq_ok_iff {file : Text} {o : Options} :
    ofToml file = .ok o ↔ Toml.read file = some o ∧ o.validate = .ok () := by
  unfold ofToml
  cases Toml.read file with
  | none => simp
  | some o' =>
    simp only [checked_eq, Option.some.injEq]
    cases h : o'.validate with
    | ok u =>
      constructor
      · intro he
        obtain rfl : o' = o := Except.ok.inj he
        exact ⟨rfl, h⟩
      · rintro ⟨rfl, -⟩
        rfl
    | error e =>
      constructor
      · intro he
        cases he
      · rintro ⟨rfl, hvalid⟩
        cases h.symm.trans hvalid

/-- A file that cannot be read is refused, and so is one that sets something that is not valid. -/
theorem ofToml_eq_error_iff {file : Text} {e : OptionsError} :
    ofToml file = .error e ↔
      Toml.read file = none ∧ e = .unreadable ∨
        ∃ o, Toml.read file = some o ∧ o.validate = .error e := by
  unfold ofToml
  cases Toml.read file with
  | none => simp [eq_comm]
  | some o =>
    simp only [checked_eq, reduceCtorEq, false_and, false_or, Option.some.injEq,
      exists_eq_left']
    cases o.validate <;> simp [Except.map]

end EmbeddedCss.Options
