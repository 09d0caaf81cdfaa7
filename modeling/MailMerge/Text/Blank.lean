/-
  MailMerge.Text.Blank — text as a list of characters, and the blanks around it.

  A blank is a character with the Unicode property White_Space. Tags are read by their
  words: a tag's body is trimmed, its keyword is the first word, and what follows the
  keyword is trimmed again.

  - `trim_length_le`: trimming never lengthens a text.
  - `word_append_afterWord`: the first word and what follows it make up the text.
-/

namespace MailMerge

/-- Text is a list of characters: every reader consumes it from the front. -/
abbrev Text := List Char

namespace Text

/-- The Unicode property White_Space. -/
def isBlank (c : Char) : Bool :=
  let n := c.toNat
  (0x9 ≤ n && n ≤ 0xD) || n == 0x20 || n == 0x85 || n == 0xA0 || n == 0x1680 || (0x2000 ≤ n && n ≤ 0x200A) ||
    n == 0x2028 || n == 0x2029 || n == 0x202F || n == 0x205F || n == 0x3000

def trimStart (s : Text) : Text := s.dropWhile isBlank

def trimEnd (s : Text) : Text := (s.reverse.dropWhile isBlank).reverse

/-- The text without the blanks at its two ends. -/
def trim (s : Text) : Text := trimEnd (trimStart s)

/-- The text before the first blank. -/
def word (s : Text) : Text := s.takeWhile (!isBlank ·)

/-- The text from the first blank on; empty when there is none. -/
def afterWord (s : Text) : Text := s.dropWhile (!isBlank ·)

theorem dropWhile_length_le (p : Char → Bool) (s : Text) : (s.dropWhile p).length ≤ s.length :=
  (List.dropWhile_suffix p).length_le

theorem trimStart_length_le (s : Text) : (trimStart s).length ≤ s.length := dropWhile_length_le _ s

theorem trimEnd_length_le (s : Text) : (trimEnd s).length ≤ s.length := by
  simpa [trimEnd] using dropWhile_length_le isBlank s.reverse

theorem trim_length_le (s : Text) : (trim s).length ≤ s.length :=
  Nat.le_trans (trimEnd_length_le _) (trimStart_length_le s)

theorem word_append_afterWord (s : Text) : word s ++ afterWord s = s := List.takeWhile_append_dropWhile

end Text

end MailMerge
