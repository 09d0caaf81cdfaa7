/-
  MailMerge.Proofs.ExprRules — the four rules for expressions exclude one another.

  The rules scan the same characters in four ways. What separates them is what a reader of
  quotations meets outside quotations: a call has a parenthesis there and a comparison an
  operator, while references, with whatever JSON text they carry, and scalars have neither
  (`silent_of_reference`, `silent_of_literal`). In a call no operator stands outside the
  parentheses (`operator_of_call`), and a scalar that begins as a name does is one of the three
  words that are no references (`literal_of_reference`). So at most one rule reads a text, and
  the order in which they are tried does not matter (`read_by_any_order`). For JSON text that is
  said place by place (`quotes_follow_json`).
-/

import MailMerge.Expr.Read
import MailMerge.Proofs.JsonMarks
import MailMerge.Proofs.References

namespace MailMerge.Expr

/-! ## The rules -/

/-- The function call that the text is. -/
def asCall (s : Text) : Option Expr := (Call.split? s).map fun (name, arg) => .call s name (read arg)

/-- The reference that the text is. -/
def asReference (s : Text) : Option Expr := (Reference.read s).map fun (path, fallback) => .var s path fallback

/-- The comparison that the text is. -/
def asComparison (s : Text) : Option Expr :=
  (Operator.split? s).map fun p => .compare s p.op (read p.before) (read p.after)

/-- The scalar that the text is. -/
def asLiteral (s : Text) : Option Expr := (readLiteral s).map (.literal s)

/-- The rules in the order in which they are tried. -/
def rules : List (Text → Option Expr) := [asCall, asReference, asComparison, asLiteral]

/-- What comes of trying the rules in some order on a text. -/
def tryRules (order : List (Text → Option Expr)) (s : Text) : Expr :=
  (order.findSome? fun rule => rule s).getD (.unsupported s)

theorem read_eq_tryRules (s : Text) : read s = tryRules rules (Text.trim s) := by
  rw [read]
  simp only [tryRules, rules, asCall, asReference, asComparison, asLiteral, List.findSome?]
  cases Call.split? (Text.trim s) with
  | some call => rfl
  | none =>
    cases Reference.read (Text.trim s) with
    | some reference => rfl
    | none =>
      cases Operator.split? (Text.trim s) with
      | some p => rfl
      | none => cases readLiteral (Text.trim s) <;> rfl

/-! ## Silent texts -/

/-- Neither a parenthesis nor the first character of an operator. -/
def isSilent (c : Char) : Bool := !"()=!<>".toList.contains c

theorem isSilent_of {p : Char → Bool} (h : ("()=!<>".toList.any p) = false) {c : Char} (hc : p c = true) :
    isSilent c = true := by
  rw [isSilent, Bool.not_eq_true', Bool.eq_false_iff]
  intro hmem
  have hany : "()=!<>".toList.any p = true := List.any_eq_true.mpr ⟨c, List.contains_iff_mem.mp hmem, hc⟩
  rw [h] at hany
  cases hany

theorem isSilent_of_isMark {c : Char} (h : Json.isMark c = true) : isSilent c = true := isSilent_of (by decide) h

theorem isSilent_of_isNameChar {c : Char} (h : Text.isNameChar c = true) : isSilent c = true :=
  isSilent_of (by decide) h

theorem ne_quote_of_isNameChar {c : Char} (h : Text.isNameChar c = true) : c ≠ '"' := by
  rintro rfl
  exact absurd h (by decide)

theorem isSilent_of_isBlank {c : Char} (h : Text.isBlank c = true) : isSilent c = true := isSilent_of (by decide) h

/-- Nothing outside quotations is a parenthesis or the first character of an operator. -/
def Silent (s : Text) : Prop := Passes (isSilent ·) .outside s .outside

theorem silent_of_json {s : Text} {j : Json} (h : Json.read s = some j) : Silent s :=
  (Json.passes_read h).mono fun _ => isSilent_of_isMark

theorem silent_of_literal {s : Text} {v : Value} (h : readLiteral s = some v) : Silent s := by
  unfold readLiteral at h
  split at h
  · rename_i hjson
    exact silent_of_json hjson
  · cases h

theorem silent_of_blanks {s : Text} (h : Text.Blanks s) : Silent s := by
  refine .plain fun c hc => ⟨?_, isSilent_of_isBlank (h c hc)⟩
  rintro rfl
  cases h '"' hc

theorem silent_of_name {name : Text} (h : Text.isName name = true) : Silent name :=
  .plain fun c hc =>
    have hchar := Text.isNameChar_of_mem_name h c hc
    ⟨ne_quote_of_isNameChar hchar, isSilent_of_isNameChar hchar⟩

theorem silent_of_readFallback {s : Text} {fallback : Option Value} (h : Reference.readFallback s = some fallback) :
    Silent s := by
  unfold Reference.readFallback at h
  split at h
  · exact .nil _
  · rename_i s'
    simp only [Option.map_eq_some_iff] at h
    obtain ⟨j, hjson, -⟩ := h
    obtain ⟨a, b, ha, hb, hs⟩ := Text.trim_split s'
    have hpadded : Silent s' := by
      rw [hs]
      exact (silent_of_blanks ha).append ((silent_of_json hjson).append (silent_of_blanks hb))
    exact .step rfl (fun _ => by decide) hpadded
  · cases h

theorem silent_of_reference {s : Text} {path : List Text} {fallback : Option Value}
    (h : Reference.read s = some (path, fallback)) : Silent s := by
  obtain ⟨head, names, rest, hpath, -, hfallback, -⟩ := Reference.read_eq_some_iff.mp h
  obtain ⟨taken, hs, -, htaken⟩ := Reference.exists_taken hpath
  have hmark : Silent (Reference.splitMark s).1 := by
    rcases Reference.mark_eq_or s with h | h
    · rw [h]
      have hname : Silent "var".toList := silent_of_name (by decide)
      exact hname.append (.step rfl (fun _ => by decide) (.nil _))
    · rw [h]
      exact .nil _
  have hnames : Silent taken := by
    refine .plain fun c hc => ?_
    rcases htaken c hc with h | rfl
    · exact ⟨ne_quote_of_isNameChar h, isSilent_of_isNameChar h⟩
    · decide
  rw [← Reference.splitMark_append s, hs]
  exact hmark.append (hnames.append (silent_of_readFallback hfallback))

/-! ## Comparisons -/

theorem at?_eq_none {c : Char} (s : Text) (h : isSilent c = true) : Operator.at? (c :: s) = none := by
  have hspellings : (Operator.spellings.all fun spelling => spelling.1.head?.any fun d => !isSilent d) = true := by decide
  refine List.find?_eq_none.mpr fun spelling hmem hpre => ?_
  obtain ⟨d, hd, hloud⟩ := (Option.any_eq_true _ _).mp (List.all_eq_true.mp hspellings spelling hmem)
  obtain ⟨t, ht⟩ := List.isPrefixOf_iff_prefix.mp hpre
  have hhead : (spelling.1 ++ t).head? = some c := by
    rw [ht]
    rfl
  rw [List.head?_append, hd] at hhead
  cases hhead
  rw [h] at hloud
  cases hloud

/-- A reader of quotations keeps in step with JSON. It ends outside quotations, and what it meets
    outside on the way is a mark of JSON, so no parenthesis, and no operator is spelled there. -/
theorem quotes_follow_json {s : Text} {j : Json} (h : Json.read s = some j) :
    Quotes.outside.after s = .outside ∧
      ∀ before c rest, s = before ++ c :: rest → (Quotes.outside.after before).covers c = false →
        Json.isMark c = true ∧ c ≠ '(' ∧ c ≠ ')' ∧ Operator.at? (c :: rest) = none := by
  obtain ⟨hend, hbare⟩ := passes_iff.mp (Json.passes_read h)
  refine ⟨hend, fun before c rest hs hc => ?_⟩
  have hmark := hbare before c rest hs hc
  have hsilent := isSilent_of_isMark hmark
  refine ⟨hmark, ?_, ?_, at?_eq_none rest hsilent⟩
  · rintro rfl
    exact absurd hsilent (by decide)
  · rintro rfl
    exact absurd hsilent (by decide)

/-- An object whose key has a quote and a parenthesis in it, and whose value has an operator and ends in a backslash. -/
theorem quotes_follow_json_escapes :
    (Json.read "\x7b\"a\\\"(\": [1.5e-3, \"<=\\\\\", null]\x7d".toList).isSome = true ∧
    Quotes.outside.after "\x7b\"a\\\"(\": [1.5e-3, \"<=\\\\\", null]\x7d".toList = .outside ∧
      ∀ before c rest, "\x7b\"a\\\"(\": [1.5e-3, \"<=\\\\\", null]\x7d".toList = before ++ c :: rest →
        (Quotes.outside.after before).covers c = false →
        Json.isMark c = true ∧ c ≠ '(' ∧ c ≠ ')' ∧ Operator.at? (c :: rest) = none := by
  have hjson : (Json.read "\x7b\"a\\\"(\": [1.5e-3, \"<=\\\\\", null]\x7d".toList).isSome = true := by decide +kernel
  obtain ⟨j, h⟩ := Option.isSome_iff_exists.mp hjson
  exact ⟨hjson, quotes_follow_json h⟩

/-- No operator stands in a silent text before one without operators. -/
theorem splitFrom?_append_eq_none {q q' : Quotes} {a s : Text} {depth : Nat} (ha : Passes (isSilent ·) q a q')
    (hs : Operator.splitFrom? q' depth s = none) : Operator.splitFrom? q depth (a ++ s) = none := by
  induction ha with
  | nil => exact hs
  | @cons q q' c a hc _ ih =>
    have hlater := ih hs
    rw [List.cons_append, Operator.splitFrom?]
    by_cases hcover : q.covers c = true
    · simp [hcover, hlater]
    · have hsilent := hc (Bool.eq_false_iff.mpr hcover)
      have hopen : c ≠ '(' := by rintro rfl; cases hsilent
      have hclose : c ≠ ')' := by rintro rfl; cases hsilent
      simp [hcover, hopen, hclose, at?_eq_none _ hsilent, hlater]

theorem operator_of_silent {s : Text} (h : Silent s) : Operator.split? s = none := by
  have happend : Operator.splitFrom? .outside 0 (s ++ []) = none := splitFrom?_append_eq_none h rfl
  rwa [List.append_nil] at happend

/-- While the parentheses of a call are open there is no operator, and nothing follows them. -/
theorem operator_of_closing {q : Quotes} {depth : Nat} {s inner : Text}
    (h : Call.closing? q depth s = some (inner, [])) : Operator.splitFrom? q (depth + 1) s = none := by
  induction s generalizing q depth inner with
  | nil => rfl
  | cons c s ih =>
    have later {depth : Nat} (hl : (Call.closing? (q.next c) depth s).map (fun (inner, rest) => (c :: inner, rest)) =
        some (inner, [])) : Operator.splitFrom? (q.next c) (depth + 1) s = none := by
      simp only [Option.map_eq_some_iff, Prod.exists, Prod.mk.injEq] at hl
      obtain ⟨inner', rest', hl, -, rfl⟩ := hl
      exact ih hl
    simp only [Call.closing?] at h
    simp only [Operator.splitFrom?]
    split at h
    · rename_i hcover
      simp [hcover, later h]
    · rename_i hcover
      split at h
      · rename_i hopen
        subst hopen
        simp [hcover, later h]
      · rename_i hopen
        split at h
        · rename_i hclose
          subst hclose
          split at h
          · cases h
            simp [Operator.splitFrom?]
          · simp [hcover, later h]
        · rename_i hclose
          simp [hcover, hopen, hclose, later h]

/-! ## Calls -/

theorem split?_eq_some_iff {s name arg : Text} :
    Call.split? s = some (name, arg) ↔ ∃ rest, Text.splitName s = some (name, '(' :: rest) ∧
      Call.isCallable name = true ∧ Call.closing? .outside 0 rest = some (arg, []) := by
  constructor
  · intro h
    unfold Call.split? at h
    split at h
    · rename_i name' rest hname
      split at h
      · rename_i hcallable
        split at h
        · rename_i arg' hclosing
          cases h
          exact ⟨rest, hname, hcallable, hclosing⟩
        · cases h
      · cases h
    · cases h
  · intro hparts
    obtain ⟨rest, hname, hcallable, hclosing⟩ := hparts
    simp only [Call.split?, hname, hcallable, if_true, hclosing]

theorem operator_of_call {s name arg : Text} (h : Call.split? s = some (name, arg)) : Operator.split? s = none := by
  obtain ⟨rest, hname, -, hclosing⟩ := split?_eq_some_iff.mp h
  obtain ⟨rfl, hname, -⟩ := Text.splitName_eq_some_iff.mp hname
  refine splitFrom?_append_eq_none (silent_of_name hname) ?_
  have hrest := operator_of_closing hclosing
  simp [Operator.splitFrom?, Quotes.covers, Quotes.next, hrest]

theorem call_of_silent {s : Text} (h : Silent s) : Call.split? s = none := by
  refine Option.eq_none_iff_forall_ne_some.mpr fun call hcall => ?_
  obtain ⟨name, arg⟩ := call
  obtain ⟨rest, hname, -⟩ := split?_eq_some_iff.mp hcall
  obtain ⟨rfl, hname, -⟩ := Text.splitName_eq_some_iff.mp hname
  have hopen : isSilent '(' = true := by
    exact h.prop_of_outside (fun d hd => ne_quote_of_isNameChar (Text.isNameChar_of_mem_name hname d hd)) (by decide)
  revert hopen
  decide

/-! ## Scalars -/

theorem isDigit_of_isNameStart {c : Char} (h : Text.isNameStart c = true) : c.isDigit = false := by
  rw [Bool.eq_false_iff]
  intro hdigit
  have hrange : (decide ('0'.val ≤ c.val) && decide (c.val ≤ '9'.val)) = true := hdigit
  rw [Bool.and_eq_true, decide_eq_true_eq, decide_eq_true_eq, UInt32.le_iff_toNat_le, UInt32.le_iff_toNat_le] at hrange
  have hle : c.toNat ≤ 0x39 := hrange.2
  rw [Text.isNameStart, Text.isLetter_of_ascii (by omega), Bool.or_eq_true] at h
  rcases h with h | h
  · have := Text.le_toNat_of_isAlpha h
    omega
  · rw [beq_iff_eq.mp h] at hdigit
    cases hdigit

open Number in
theorem readNumber_eq_none {c : Char} (s : Text) (h : Text.isNameStart c = true) : Json.readNumber (c :: s) = none := by
  have hsign : Numeral.splitSign (c :: s) = (false, c :: s) := by
    unfold Numeral.splitSign
    split
    · rename_i heq
      cases heq
      cases h
    · rfl
  have hwhole : Numeral.splitWhole (c :: s) = none := by
    unfold Numeral.splitWhole
    split
    · rename_i heq
      cases heq
      cases h
    · simp [Numeral.splitDigits, isDigit_of_isNameStart h]
  simp [Json.readNumber, Numeral.read, hsign, hwhole]

/-- A scalar that begins as a name does is one of the words. -/
theorem reserved_of_readScalar {c : Char} {s rest : Text} {j : Json} (h : Json.readScalar (c :: s) = some (j, rest))
    (hc : Text.isNameStart c = true) : ∃ word ∈ Reference.reserved, c :: s = word ++ rest := by
  unfold Json.readScalar at h
  split at h
  · rename_i heq
    cases h
    exact ⟨"null".toList, by decide, heq⟩
  · rename_i heq
    cases h
    exact ⟨"true".toList, by decide, heq⟩
  · rename_i heq
    cases h
    exact ⟨"false".toList, by decide, heq⟩
  · rename_i heq
    cases heq
    cases hc
  · rw [readNumber_eq_none s hc] at h
    cases h

theorem reserved_of_readValue {nested? : Option (Json.Reader Json)} {c : Char} {s rest : Text} {j : Json}
    (h : Json.readValue nested? (c :: s) = some (j, rest)) (hc : Text.isNameStart c = true) :
    ∃ word ∈ Reference.reserved, c :: s = word ++ rest := by
  have hspaces : Json.skipSpaces (c :: s) = c :: s := by
    refine Text.dropWhile_self fun d hd => ?_
    cases hd
    rw [Bool.eq_false_iff]
    intro hspace
    simp only [Json.isSpace, Bool.or_eq_true, beq_iff_eq] at hspace
    rcases hspace with ((rfl | rfl) | rfl) | rfl
    all_goals cases hc
  unfold Json.readValue at h
  rw [hspaces] at h
  split at h
  · rename_i heq
    cases heq
    cases hc
  · rename_i heq
    cases heq
    cases hc
  · exact reserved_of_readScalar h hc

theorem value_run (depth : Nat) : ∃ nested?, (Json.value depth).run = Json.readValue nested? := by
  cases depth with
  | zero => exact ⟨none, rfl⟩
  | succ depth => exact ⟨some (Json.value depth), rfl⟩

/-- JSON that begins as a name does is one of the words, with spaces after it. -/
theorem reserved_of_json {c : Char} {s : Text} {j : Json} (h : Json.read (c :: s) = some j)
    (hc : Text.isNameStart c = true) :
    ∃ word ∈ Reference.reserved, ∃ rest, c :: s = word ++ rest ∧ Json.skipSpaces rest = [] := by
  obtain ⟨nested?, hrun⟩ := value_run Json.maxDepth
  unfold Json.read at h
  rw [hrun] at h
  split at h
  · rename_i j' rest hvalue
    split at h
    · rename_i hrest
      obtain ⟨word, hword, heq⟩ := reserved_of_readValue hvalue hc
      exact ⟨word, hword, rest, heq, List.isEmpty_iff.mp hrest⟩
    · cases h
  · cases h

/-- A reference begins as a name does, be it with the mark. -/
theorem head_of_reference {s : Text} {path : List Text} {fallback : Option Value}
    (h : Reference.read s = some (path, fallback)) : ∃ c s', s = c :: s' ∧ Text.isNameStart c = true := by
  obtain ⟨head, names, rest, hpath, -⟩ := Reference.read_eq_some_iff.mp h
  obtain ⟨taken, hs, ⟨c, hc, hstart⟩, -⟩ := Reference.exists_taken hpath
  have happend := Reference.splitMark_append s
  rcases Reference.mark_eq_or s with hmark | hmark
  · rw [hmark] at happend
    exact ⟨'v', _, happend.symm, by decide⟩
  · rw [hmark, List.nil_append, hs] at happend
    cases taken with
    | nil => cases hc
    | cons d taken =>
      cases hc
      exact ⟨c, taken ++ rest, happend.symm, hstart⟩

theorem literal_of_reference {s : Text} {path : List Text} {fallback : Option Value}
    (h : Reference.read s = some (path, fallback)) : readLiteral s = none := by
  obtain ⟨c, s', rfl, hc⟩ := head_of_reference h
  cases hjson : Json.read (c :: s') with
  | none => simp [readLiteral, hjson]
  | some j =>
    obtain ⟨word, hword, rest, heq, hspaces⟩ := reserved_of_json hjson hc
    have hrest : ∀ d ∈ rest.head?, Text.isNameChar d = false ∧ d ≠ '.' := by
      intro d hd
      have hspace := List.dropWhile_eq_nil_iff.mp hspaces d (List.mem_of_head? hd)
      simp only [Json.isSpace, Bool.or_eq_true, beq_iff_eq] at hspace
      rcases hspace with ((rfl | rfl) | rfl) | rfl
      all_goals decide
    rw [heq, Reference.read_reserved hword hrest] at h
    cases h

/-! ## References and scalars -/

theorem read_of_call {s name arg : Text} (hs : Text.Trimmed s) (h : Call.split? s = some (name, arg)) :
    read s = .call s name (read arg) := by
  rw [read_eq_tryRules, Text.trim_of_trimmed hs]
  simp [tryRules, rules, asCall, h]

theorem read_of_reference {s : Text} {path : List Text} {fallback : Option Value} (hs : Text.Trimmed s)
    (h : Reference.read s = some (path, fallback)) : read s = .var s path fallback := by
  rw [read_eq_tryRules, Text.trim_of_trimmed hs]
  simp [tryRules, rules, asCall, asReference, call_of_silent (silent_of_reference h), h]

theorem read_of_literal {s : Text} {v : Value} (hs : Text.Trimmed s) (h : readLiteral s = some v) :
    read s = .literal s v := by
  have hsilent := silent_of_literal h
  have hreference : Reference.read s = none := by
    refine Option.eq_none_iff_forall_ne_some.mpr fun reference hreference => ?_
    rw [literal_of_reference hreference] at h
    cases h
  rw [read_eq_tryRules, Text.trim_of_trimmed hs]
  simp [tryRules, rules, asCall, asReference, asComparison, asLiteral, call_of_silent hsilent, hreference,
    operator_of_silent hsilent, h]

theorem read_name {x : Text} (h : Text.isName x = true) (hfree : x ∉ Reference.reserved) : read x = .var x [x] none :=
  read_of_reference (Text.trimmed_of_isName h) (Reference.read_name h hfree)

/-- A caller's variable. -/
theorem read_marked {x : Text} (h : Text.isName x = true) :
    read (callerMark ++ x) = .var (callerMark ++ x) [callerMark ++ x] none := by
  refine read_of_reference ?_ (Reference.read_marked h)
  have hmark : Text.Trimmed callerMark := by decide
  exact Text.trimmed_append (List.cons_ne_nil _ _) (Text.name_ne_nil h) hmark.start (Text.trimmed_of_isName h).stop

/-- One of the words is a scalar. -/
theorem read_true : read "true".toList = .literal "true".toList (.bool true) := by
  refine read_of_literal (Text.trimmed_of_isName (by decide)) ?_
  obtain ⟨nested?, hrun⟩ := value_run Json.maxDepth
  have hjson : Json.read "true".toList = some (.bool true) := by
    rw [Json.read, hrun]
    rfl
  rw [readLiteral, hjson]
  rfl

/-! ## One rule at most -/

/-- A text that is a reference or a scalar is neither a call nor a comparison. -/
theorem rules_of_silent {s : Text} (h : Silent s) : asCall s = none ∧ asComparison s = none := by
  simp [asCall, asComparison, call_of_silent h, operator_of_silent h]

theorem rules_exclusive (s : Text) : rules.Pairwise fun rule rule' => rule s = none ∨ rule' s = none := by
  have hreference : asReference s = none ∨ asCall s = none ∧ asComparison s = none ∧ asLiteral s = none := by
    cases h : Reference.read s with
    | none => exact Or.inl (by simp [asReference, h])
    | some reference =>
      obtain ⟨hcall, hcomparison⟩ := rules_of_silent (silent_of_reference h)
      exact Or.inr ⟨hcall, hcomparison, by simp [asLiteral, literal_of_reference h]⟩
  have hliteral : asLiteral s = none ∨ asCall s = none ∧ asComparison s = none := by
    cases h : readLiteral s with
    | none => exact Or.inl (by simp [asLiteral, h])
    | some v => exact Or.inr (rules_of_silent (silent_of_literal h))
  have hcall : asCall s = none ∨ asComparison s = none := by
    cases h : Call.split? s with
    | none => exact Or.inl (by simp [asCall, h])
    | some call => exact Or.inr (by simp [asComparison, operator_of_call h])
  simp only [rules, List.pairwise_cons, List.mem_cons, List.not_mem_nil, or_false, forall_eq_or_imp, forall_eq,
    List.Pairwise.nil, false_imp_iff, implies_true, and_true]
  refine ⟨⟨?_, hcall, ?_⟩, ⟨?_, ?_⟩, ?_⟩
  · exact hreference.symm.imp_left And.left
  · exact hliteral.symm.imp_left And.left
  · exact hreference.imp_right fun h => h.2.1
  · exact hreference.imp_right fun h => h.2.2
  · exact hliteral.symm.imp_left And.right

/-- Where a comparison is read, no other rule reads anything. -/
theorem alone_of_operator {s : Text} {p : Operator.Split} (h : Operator.split? s = some p) :
    Call.split? s = none ∧ Reference.read s = none ∧ readLiteral s = none := by
  have hnone : Operator.split? s ≠ none := by simp [h]
  refine ⟨?_, ?_, ?_⟩
  · exact Option.eq_none_iff_forall_ne_some.mpr fun call hcall => hnone (operator_of_call hcall)
  · exact Option.eq_none_iff_forall_ne_some.mpr fun reference hreference =>
      hnone (operator_of_silent (silent_of_reference hreference))
  · exact Option.eq_none_iff_forall_ne_some.mpr fun v hv => hnone (operator_of_silent (silent_of_literal hv))

theorem read_of_operator {s : Text} {p : Operator.Split} (hs : Text.Trimmed s) (h : Operator.split? s = some p) :
    read s = .compare s p.op (read p.before) (read p.after) := by
  obtain ⟨hcall, hreference, -⟩ := alone_of_operator h
  rw [read_eq_tryRules, Text.trim_of_trimmed hs]
  simp [tryRules, rules, asCall, asReference, asComparison, hcall, hreference, h]

/-- Of rules that exclude one another the first that gives something is the only one, in whatever order. -/
theorem findSome?_of_perm {order order' : List (Text → Option Expr)} (h : order.Perm order') {s : Text}
    (hexclusive : order.Pairwise fun rule rule' => rule s = none ∨ rule' s = none) :
    order.findSome? (fun rule => rule s) = order'.findSome? (fun rule => rule s) := by
  induction h with
  | nil => rfl
  | cons rule _ ih => simp only [List.findSome?_cons, ih hexclusive.of_cons]
  | swap rule rule' order =>
    have hpair := (List.pairwise_cons.mp hexclusive).1 rule List.mem_cons_self
    rcases hpair with h | h
    · simp [List.findSome?_cons, h]
    · simp [List.findSome?_cons, h]
  | trans h₁ _ ih₁ ih₂ =>
    have hmiddle := (h₁.pairwise_iff fun h => Or.symm h).mp hexclusive
    exact (ih₁ hexclusive).trans (ih₂ hmiddle)

/-- At most one rule reads a text, so they can be tried in any order; and when an operator stands
    outside quotations and parentheses, the comparison is what the text is. -/
theorem read_by_any_order {s : Text} (hs : Text.Trimmed s) :
    (rules.Pairwise fun rule rule' => rule s = none ∨ rule' s = none) ∧
    (∀ order, order.Perm rules → tryRules order s = read s) ∧
    ∀ p, Operator.split? s = some p → Call.split? s = none ∧ Reference.read s = none ∧ readLiteral s = none ∧
      read s = .compare s p.op (read p.before) (read p.after) := by
  have hexclusive := rules_exclusive s
  have hread : read s = tryRules rules s := by
    rw [read_eq_tryRules, Text.trim_of_trimmed hs]
  refine ⟨hexclusive, fun order horder => ?_, fun p hp => ?_⟩
  · rw [hread, tryRules, tryRules, findSome?_of_perm horder.symm hexclusive]
  · obtain ⟨hcall, hreference, hliteral⟩ := alone_of_operator hp
    refine ⟨hcall, hreference, hliteral, ?_⟩
    rw [hread]
    simp [tryRules, rules, asCall, asReference, asComparison, hcall, hreference, hp]

/-- A call with quoted parenthesis, and a text with a quoted operator, on the two sides of an operator. -/
theorem read_by_any_order_quoted :
    Text.Trimmed "F(\"(\") <= x:\"<\"".toList ∧
      tryRules [asLiteral, asComparison, asReference, asCall] "F(\"(\") <= x:\"<\"".toList =
        .compare "F(\"(\") <= x:\"<\"".toList .le (read "F(\"(\") ".toList) (read " x:\"<\"".toList) := by
  have hs : Text.Trimmed "F(\"(\") <= x:\"<\"".toList := by decide
  have hsplit : Operator.split? "F(\"(\") <= x:\"<\"".toList =
      some ⟨"F(\"(\") ".toList, "<=".toList, .le, " x:\"<\"".toList⟩ := by decide
  obtain ⟨-, horder, hoperator⟩ := read_by_any_order hs
  have hperm : [asLiteral, asComparison, asReference, asCall].Perm rules := List.reverse_perm rules
  exact ⟨hs, (horder _ hperm).trans (hoperator _ hsplit).2.2.2⟩

end MailMerge.Expr
