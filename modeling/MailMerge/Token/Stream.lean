/-
  MailMerge.Token.Stream — the tokens of a template, answered one at a time.

  A stream keeps the template, what of it is still to be cut, and how many bytes and which line
  it has come to. `next` answers one request: the next token, or the error at an unmatched
  delimiter, or nothing at the end. The line of a token is the one the stream has kept; the line
  of an error is counted anew from the start of the template. An error is answered once.
-/

import MailMerge.Token.Scan

namespace MailMerge.Token

/-- A template that is being cut, of which `rest` is still to come. -/
structure Stream where
  template : Text
  rest : Text
  offset : Nat
  line : Nat
  failed : Bool
  /-- What has been cut off is as long as `offset` says and ends on `line`. -/
  sound : ∃ past, template = past ++ rest ∧ offset = Text.bytes past ∧ line = 1 + Text.lineBreaks past

namespace Stream

def start (template : Text) : Stream := ⟨template, template, 0, 1, false, [], rfl, rfl, rfl⟩

/-- The stream behind its next token, which leaves `rest`. -/
def advance (s : Stream) (lexeme : Lexeme) (rest : Text) (h : s.rest = lexeme.raw ++ rest) : Stream where
  template := s.template
  rest := rest
  offset := s.offset + Text.bytes lexeme.raw
  line := s.line + Text.lineBreaks lexeme.raw
  failed := s.failed
  sound := by
    obtain ⟨past, ht, ho, hl⟩ := s.sound
    refine ⟨past ++ lexeme.raw, ?_, ?_, ?_⟩
    · rw [ht, h, List.append_assoc]
    · rw [ho, Text.bytes_append]
    · rw [hl, Text.lineBreaks_append, Nat.add_assoc]

/-- One request: the answer, and the stream after it. -/
def next (s : Stream) : Option (Except Error Token) × Stream :=
  if s.failed = true then (none, s)
  else if hs : s.rest = [] then (none, s)
  else
    match h : cut s.rest with
    | .unmatched before d =>
      (some (.error (.unmatched d (Text.lineOf s.template (s.offset + Text.bytes before)))), { s with failed := true })
    | .token lexeme rest => (some (.ok ⟨lexeme, s.offset, s.line⟩), s.advance lexeme rest (cut_token hs h).1)

/-- The stream after `n` requests. -/
def after (s : Stream) : Nat → Stream
  | 0 => s
  | n + 1 => s.next.2.after n

/-- The answer to the request after `n` others. -/
def answer (s : Stream) (n : Nat) : Option (Except Error Token) := (s.after n).next.1

theorem answer_zero (s : Stream) : s.answer 0 = s.next.1 := rfl

theorem answer_succ (s : Stream) (n : Nat) : s.answer (n + 1) = s.next.2.answer n := rfl

theorem next_of_failed {s : Stream} (h : s.failed = true) : s.next = (none, s) := if_pos h

theorem next_of_end {s : Stream} (h : s.rest = []) : s.next = (none, s) := by
  rw [next, dif_pos h, ite_self]

end Stream

end MailMerge.Token
