/-
The part of a text that a terminal would show.

A terminal shows most characters and obeys the others: control characters, and
sequences that begin with an escape.  A text that is written elsewhere is written
without what would only be obeyed.

The character behind the escape tells the form of a sequence.  A bracket opens a
control sequence, which goes on to the first letter or other character of that range.
A `P` opens a device control string: a header, then a payload.  A closing bracket opens
a command, which a bell ends.  An `X`, a caret or an underscore opens a payload at once.
Anything else is the end of a short sequence, with spaces and punctuation before it if
it likes.  An escape begins a new sequence wherever it stands, and a cancel or a
substitute ends the one that is open.

Tabs and line ends are shown, and they are shown inside a short sequence or a control
sequence too.  There they are an aside: what follows is shown as well, up to the next
control character, where the sequence is taken up again.
-/

namespace Calculator.Text

/-! ### Characters -/

/-- The character that begins every sequence. -/
def escape : Char := '\x1b'

/-- The control characters that end any sequence. -/
def cancels : List Char := ['\x18', '\x1a']

/-- The control character that ends a command. -/
def bell : Char := '\x07'

/-- The control characters that are shown: the tab, and what ends a line or a page. -/
def layout : List Char := ['\t', '\n', '\x0c', '\r']

/-- The code point of a character lies in a range. -/
def isWithin (first last : Nat) (c : Char) : Bool :=
  first ≤ c.toNat && c.toNat ≤ last

/-- The last code point of ASCII, which is a control character. -/
def delete : Nat := 0x7F

/-- A character that is shown where no sequence is open. -/
def isShown (c : Char) : Bool :=
  (0x20 ≤ c.toNat && c.toNat != delete) || decide (c ∈ layout)

/-- A payload ends at the byte `9C`, also where that byte is a part of a character. -/
def endsPayload (c : Char) : Bool :=
  decide (0x9C ∈ (String.utf8EncodeChar c).map UInt8.toNat)

/-! ### Sequences -/

/-- A sequence that is open, by how far it has come. -/
inductive Sequence where
  /-- Nothing stands behind the escape yet. -/
  | opened
  /-- A short sequence whose end is still to come. -/
  | short
  /-- A control sequence. -/
  | control
  /-- The header of a device control string, at its beginning. -/
  | header
  /-- The same, in its parameters. -/
  | parameters
  /-- The same, behind its parameters. -/
  | intermediates
  /-- The text of a string. -/
  | payload
  /-- A command. -/
  | command
deriving DecidableEq

/-- Where in a text one stands. -/
inductive Place where
  /-- No sequence is open. -/
  | plain
  /-- In a sequence. -/
  | inside (q : Sequence)
  /-- In an aside to a sequence. -/
  | aside (q : Sequence)
deriving DecidableEq

namespace Sequence

/-- A sequence that layout interrupts. -/
def allowsAside : Sequence → Bool
  | opened | short | control => true
  | header | parameters | intermediates | payload | command => false

/-- The place behind one more character of a sequence, unless the character belongs to no
sequence. -/
def next (q : Sequence) (c : Char) : Place :=
  match q with
  | opened =>
    if c = '[' then .inside control
    else if c = ']' then .inside command
    else if c = 'P' then .inside header
    else if c ∈ ['X', '^', '_'] then .inside payload
    else if isWithin 0x20 0x2F c then .inside short
    else if isWithin 0x30 0x7E c then .plain
    else .inside opened
  | short => if isWithin 0x30 0x7E c then .plain else .inside short
  | control => if isWithin 0x40 0x7E c then .plain else .inside control
  | header =>
    if isWithin 0x20 0x2F c then .inside intermediates
    else if isWithin 0x30 0x3F c then .inside parameters
    else if isWithin 0x40 0x7E c then .inside payload
    else .inside header
  | parameters =>
    if isWithin 0x20 0x2F c then .inside intermediates
    else if isWithin 0x3C 0x7E c then .inside payload
    else .inside parameters
  | intermediates => if isWithin 0x30 0x7E c then .inside payload else .inside intermediates
  | payload => if endsPayload c then .plain else .inside payload
  | command => if c = bell then .plain else .inside command

end Sequence

namespace Place

/-- A character is shown at a place. -/
def shows : Place → Char → Bool
  | plain, c | aside _, c => isShown c
  | inside q, c => q.allowsAside && decide (c ∈ layout)

/-- The place behind a character. -/
def next (p : Place) (c : Char) : Place :=
  if c = escape then inside .opened
  else if c ∈ cancels then plain
  else
    match p with
    | plain => plain
    | inside q => if q.allowsAside && decide (c ∈ layout) then aside q else q.next c
    | aside q => if delete < c.toNat then plain else if isShown c then aside q else inside q

/-- The place behind a text. -/
def behind (p : Place) (cs : List Char) : Place :=
  cs.foldl next p

/-- What is shown of a text that begins at a place. -/
def visible (p : Place) : List Char → List Char
  | [] => []
  | c :: r => if p.shows c then c :: (p.next c).visible r else (p.next c).visible r

end Place

end Calculator.Text
