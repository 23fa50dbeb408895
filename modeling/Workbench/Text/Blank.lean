/-!
# Blanks

The characters that separate words: the Unicode `White_Space` characters together with the four
information separators U+001C to U+001F. Zero-width characters are not blanks. Stripping removes
blanks at both ends, and the words of a text are its maximal runs of other characters.
-/

namespace Workbench.Text

/-- Whether a character separates words. -/
def isBlank (c : Char) : Bool :=
  let n := c.toNat
  (9 ≤ n && n ≤ 13) || (28 ≤ n && n ≤ 32) || n == 0x85 || n == 0xA0 || n == 0x1680 ||
    (0x2000 ≤ n && n ≤ 0x200A) || n == 0x2028 || n == 0x2029 || n == 0x202F || n == 0x205F ||
    n == 0x3000

def trim (cs : List Char) : List Char :=
  ((cs.dropWhile isBlank).reverse.dropWhile isBlank).reverse

/-- Drops the blanks at both ends of a text. -/
def strip (s : String) : String := .ofList (trim s.toList)

/-- Whether a text holds nothing but blanks. -/
def isBlankText (s : String) : Bool := s.toList.all isBlank

/-- The maximal runs of characters that are not blanks, from left to right. -/
def wordsOf (cs : List Char) : List (List Char) :=
  (cs.splitOnP isBlank).filter fun w => !w.isEmpty

def words (s : String) : List String := (wordsOf s.toList).map .ofList

def startsWith (s t : String) : Bool := t.toList.isPrefixOf s.toList

def endsWith (s t : String) : Bool := t.toList.isSuffixOf s.toList

def dropChars (s : String) (n : Nat) : String := .ofList (s.toList.drop n)

def takeChars (s : String) (n : Nat) : String := .ofList (s.toList.take n)

/-- The lines of a text: what its line feeds separate. A text without a line feed is one line. -/
def lines (s : String) : List String := (s.toList.splitOn '\n').map .ofList

/-- Characters with a line feed for every line end: a carriage return, a line feed, or both in this
order. -/
def lineFeeds : List Char → List Char
  | [] => []
  | '\r' :: '\n' :: rest => '\n' :: lineFeeds rest
  | c :: rest => (if c == '\r' then '\n' else c) :: lineFeeds rest

def withLineFeeds (s : String) : String := .ofList (lineFeeds s.toList)

def occursIn (needle : List Char) : List Char → Bool
  | [] => needle.isEmpty
  | c :: rest => needle.isPrefixOf (c :: rest) || occursIn needle rest

/-- A text with blanks in front, so that it is at least `w` characters wide. -/
def padLeft (w : Nat) (s : String) : String :=
  .ofList (List.replicate (w - s.length) ' ') ++ s

/-- A text with blanks behind it, so that it is at least `w` characters wide. -/
def padRight (w : Nat) (s : String) : String :=
  s ++ .ofList (List.replicate (w - s.length) ' ')

theorem trim_eq_self_of_not_blank {cs : List Char} (hd : ∀ c ∈ cs.head?, isBlank c = false)
    (hl : ∀ c ∈ cs.getLast?, isBlank c = false) : trim cs = cs := by
  have h1 : cs.dropWhile isBlank = cs := by
    cases cs with
    | nil => rfl
    | cons c r => simp [List.dropWhile, hd c (by simp)]
  have h2 : cs.reverse.dropWhile isBlank = cs.reverse := by
    cases h : cs.reverse with
    | nil => rfl
    | cons c r =>
      have : c ∈ cs.getLast? := by rw [← List.head?_reverse, h]; simp
      simp [List.dropWhile, hl c this]
  rw [trim, h1, h2, List.reverse_reverse]

end Workbench.Text
