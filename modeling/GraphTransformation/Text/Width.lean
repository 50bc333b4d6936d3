import GraphTransformation.Text.Emoji
import GraphTransformation.Text.Mark
import GraphTransformation.Text.Wide

/-!
The width of text in columns.

Wide characters take two columns, marks none, and others one, controls included.
Some characters take less together than by themselves: emoji with variation
selectors, skin tones, tags or joiners between them, the ligatures of a few
scripts, and the two characters of a line end. So a line is measured from its end,
and a `Place` keeps what the width of the character before it depends on.
-/

namespace GraphTransformation.Text

/-! ### Characters -/

/-- The columns that a character takes by itself. A Khmer sign that stands for a
whole word takes three. -/
def charWidth (c : Char) : Nat :=
  if c.toNat = 0x17D8 then 3
  else if isZeroWidth c then 0
  else if isWide c then 2
  else 1

/-- The mark that joins what is on both its sides. -/
def isJoiner (c : Char) : Bool := c.toNat == 0x200D

/-- An Arabic alef. -/
def isAlef (c : Char) : Bool :=
  isBetween 0x622 0x623 c || c.toNat == 0x625 || c.toNat == 0x627 || isBetween 0x671 0x673 c ||
    c.toNat == 0x675 || isBetween 0x773 0x774 c || isBetween 0x870 0x882 c

/-- An Arabic lam. -/
def isLam (c : Char) : Bool :=
  c.toNat == 0x644 || isBetween 0x6B5 0x6B8 c || c.toNat == 0x76A || c.toNat == 0x8A6 ||
    c.toNat == 0x8C7

/-- A Khmer letter that is written below the letter before it. -/
def isSubscriptLetter (c : Char) : Bool :=
  isBetween 0x1780 0x1782 c || isBetween 0x1784 0x1787 c || isBetween 0x1789 0x178C c ||
    isBetween 0x178E 0x1793 c || isBetween 0x1795 0x1798 c || isBetween 0x179B 0x179D c ||
    c.toNat == 0x17A0 || c.toNat == 0x17A2 || c.toNat == 0x17A7 || isBetween 0x17AB 0x17AC c ||
    c.toNat == 0x17AF

/-- A Tifinagh consonant. -/
def isTifinaghConsonant (c : Char) : Bool := isBetween 0x2D31 0x2D65 c || c.toNat == 0x2D6F

/-- A quotation mark that has a wide form. -/
def isQuotationMark (c : Char) : Bool := isBetween 0x2018 0x2019 c || isBetween 0x201C 0x201D c

/-! ### Contexts -/

/-- What follows a character, as far as its width depends on it. Of a letter that
may be joined to the one before it, `joined` says that there is a joiner. -/
inductive Context where
  | other
  | lineFeed
  /-- An Arabic alef, which makes a ligature with a lam. -/
  | alef
  /-- A Hebrew lamed, which makes one with a joined alef. -/
  | lamed (joined : Bool)
  /-- A Khmer letter, which a sign before it puts below another. -/
  | subscriptLetter
  /-- A Buginese letter ya. -/
  | ya (joined : Bool)
  /-- A Buginese vowel sign with a joined ya after it. -/
  | vowelYa
  /-- A Tifinagh consonant. -/
  | consonant (joined : Bool)
  /-- A Tifinagh joiner with a consonant after it. -/
  | boundConsonant
  /-- A second part of a Lisu tone. -/
  | toneLetter
  /-- An Old Turkic letter i. -/
  | orkhonI (joined : Bool)
  /-- The Kirat Rai vowel sign e. -/
  | vowelE
  /-- The Kirat Rai vowel sign ai. -/
  | vowelAi
  | emoji
  /-- A skin tone without its emoji. -/
  | tone
  | indicator
  /-- Two or more regional indicators. -/
  | indicators
  /-- A joiner with an emoji after it. -/
  | joiner
  /-- The frame of a keycap before a joiner and an emoji. -/
  | keycap
  /-- The end of a tag sequence before a joiner and an emoji, with letters before it. -/
  | tagLetters (count : Nat)
  /-- The end of such a sequence with digits before it. -/
  | tagDigits (count : Nat)
  /-- One regional indicator before a joiner and an emoji. -/
  | joinedIndicator
  /-- More of them, an even or an odd number. -/
  | joinedIndicators (even : Bool)
  deriving DecidableEq, Repr

namespace Context

/-- Whether marks may come between the letter and the rest of its ligature. -/
def isLetter : Context → Bool
  | .alef | .lamed _ | .subscriptLetter | .ya _ | .vowelYa | .consonant _ | .boundConsonant
  | .toneLetter | .orkhonI _ => true
  | _ => false

/-- A letter with a joiner before it. -/
def join : Context → Context
  | .alef => .other
  | .lamed _ => .lamed true
  | .ya _ => .ya true
  | .consonant _ => .consonant true
  | .orkhonI _ => .orkhonI true
  | f => f

/-- What a character is for the one before it. -/
def ofChar (c : Char) : Context :=
  if c = '\n' then .lineFeed
  else if isAlef c then .alef
  else if c.toNat = 0x5DC then .lamed false
  else if isSubscriptLetter c then .subscriptLetter
  else if c.toNat = 0x1A10 then .ya false
  else if isTifinaghConsonant c then .consonant false
  else if isBetween 0xA4FC 0xA4FD c then .toneLetter
  else if c.toNat = 0x10C03 then .orkhonI false
  else if c.toNat = 0x16D67 then .vowelE
  else if c.toNat = 0x16D68 then .vowelAi
  else if isIndicator c then .indicator
  else if isTone c then .tone
  else if isEmoji c then .emoji
  else .other

/-- The columns that a letter adds to the ligature it makes, if it makes one, and
what it is for the one before it. -/
def ligature (f : Context) (c : Char) : Option (Int × Context) :=
  match f with
  | .lineFeed => if c = '\r' then some (0, .other) else none
  | .alef =>
    if isLam c then some (0, .other) else if isTransparent c then some (0, .alef) else none
  | .lamed true => if c.toNat = 0x5D0 then some (0, .other) else none
  | .subscriptLetter => if c.toNat = 0x17D2 then some (-1, .other) else none
  | .ya true => if c.toNat = 0x1A17 then some (0, .vowelYa) else none
  | .vowelYa => if c.toNat = 0x1A15 then some (0, .other) else none
  | .consonant joined =>
    if c.toNat = 0x2D7F then some (1, .boundConsonant)
    else if joined && isTifinaghConsonant c then some (0, .other)
    else none
  | .boundConsonant => if isTifinaghConsonant c then some (-1, .other) else none
  | .toneLetter => if isBetween 0xA4F8 0xA4FB c then some (0, .other) else none
  | .orkhonI true => if c.toNat = 0x10C32 then some (0, .other) else none
  | .vowelE =>
    if c.toNat = 0x16D63 || c.toNat = 0x16D69 then some (0, .other)
    else if c.toNat = 0x16D67 then some (0, .vowelAi)
    else if c.toNat = 0x16D68 then some (1, .vowelE)
    else none
  | .vowelAi => if c.toNat = 0x16D63 then some (0, .other) else none
  | _ => none

/-- What a joiner is before an emoji; a single regional indicator is none. -/
def joinEmoji : Context → Option Context
  | .emoji | .tone | .indicators | .joinedIndicators _ => some .joiner
  | _ => none

/-- The columns that a character adds to the emoji it belongs to, if it belongs to
one, and what it is for the one before it. -/
def sequence (f : Context) (c : Char) : Option (Int × Context) :=
  if isJoiner c then f.joinEmoji.map (0, ·)
  else
    match f with
    | .tone => if isTonable c then some (0, .emoji) else none
    | .indicator | .indicators => if isIndicator c then some (1, .indicators) else none
    | .joiner =>
      if c.toNat = 0x20E3 then some (0, .keycap)
      else if c.toNat = 0xE007F then some (0, .tagLetters 0)
      else if isIndicator c then some (1, .joinedIndicator)
      else if isTone c then some (0, .tone)
      else if isEmoji c then some (0, .emoji)
      else none
    | .joinedIndicator | .joinedIndicators false =>
      if isIndicator c then some (-1, .joinedIndicators true) else none
    | .joinedIndicators true => if isIndicator c then some (3, .joinedIndicators false) else none
    | .tagLetters n =>
      if isBetween 0xE0061 0xE007A c && n < 6 then some (0, .tagLetters (n + 1))
      else if isBetween 0xE0030 0xE0039 c && n ≤ 4 then some (0, .tagDigits 1)
      else if c.toNat = 0x1F3F4 && 3 ≤ n then some (0, .emoji)
      else none
    | .tagDigits n =>
      if isBetween 0xE0030 0xE0039 c && n < 3 then some (0, .tagDigits (n + 1))
      else if c.toNat = 0x1F3F4 && n = 3 then some (0, .emoji)
      else none
    | _ => none

/-- The columns that a character adds, and what it is for the one before it. -/
def push (f : Context) (c : Char) : Int × Context :=
  ((f.ligature c).or (f.sequence c)).getD (charWidth c, ofChar c)

end Context

/-! ### Variation selectors -/

/-- The form that a variation selector asks for. -/
inductive Form where
  | emoji
  | text
  /-- The wide form of a quotation mark. -/
  | wide
  deriving DecidableEq, Repr

/-- The form that the character asks for, if it is a variation selector. -/
def Form.ofChar (c : Char) : Option Form :=
  if c.toNat = 0xFE0F then some .emoji
  else if c.toNat = 0xFE0E then some .text
  else if c.toNat = 0xFE01 then some .wide
  else none

/-- The columns that a character takes in the form, if it has that form, and what
it is for the one before it. -/
def Form.apply (form : Form) (f : Context) (c : Char) : Option (Int × Context) :=
  match form with
  | .emoji =>
    if isPresentable c then some (if f = .joiner ∨ f = .keycap then 0 else 2, .emoji) else none
  | .text => if isNarrowable c then some (1, .other) else none
  | .wide => if isQuotationMark c then some (2, .other) else none

/-! ### Lines -/

/-- What follows a place in a line. -/
structure Place where
  context : Context
  /-- The form that is asked for before it. -/
  form : Option Form
  deriving DecidableEq, Repr

namespace Place

/-- The context of a place where no form is asked for, or where the character has
not the form: then only a letter goes on to count. -/
def bare (p : Place) : Context :=
  if p.form.isNone || p.context.isLetter then p.context else .other

/-- The columns of a character of a context without a form, and the place before it. -/
def pushBare (f : Context) (c : Char) : Int × Place :=
  match Form.ofChar c with
  | some form =>
    let kept := f.isLetter || form == .emoji && (f == .joiner || f == .keycap)
    (0, ⟨if kept then f else .other, some form⟩)
  | none =>
    if f.isLetter && isJoiner c then (0, ⟨f.join, none⟩)
    else if f.isLetter && isSelecting c then (0, ⟨f, none⟩)
    else
      let (columns, f) := f.push c
      (columns, ⟨f, none⟩)

/-- The columns that the character before a place adds, and the place before it. -/
def push (c : Char) (p : Place) : Int × Place :=
  match p.form.bind (·.apply p.context c) with
  | some (columns, f) => (columns, ⟨f, none⟩)
  | none => pushBare p.bare c

end Place

/-- The columns of the characters and the place before them. -/
def measure : List Char → Int × Place
  | [] => (0, ⟨.other, none⟩)
  | c :: rest =>
    let (columns, p) := measure rest
    let (more, p) := p.push c
    (columns + more, p)

/-- The columns that a line of text takes. -/
def width (line : String) : Nat := (measure line.toList).1.toNat

/-- The line filled up with blanks to a number of columns. -/
def padTo (columns : Nat) (line : String) : String :=
  line ++ String.ofList (List.replicate (columns - width line) ' ')

end GraphTransformation.Text
