import SearchFilter.Proofs.Reports

/-! The caret under the line that a syntax error shows. Lines are counted by their newlines, the column by
characters, and the shown line lacks its line end. They fit because no error is reported at a blank, so
never in a line end. -/

namespace SearchFilter

namespace Text

section Lines

variable {line before rest : List Char} {c : Char}

theorem lines_go_cons (hc : c ≠ '\n') (line cs : List Char) :
    lines.go line (c :: cs) = lines.go (c :: line) cs := by
  simp [lines.go]

theorem lines_go_newline (line cs : List Char) :
    ∃ shown, lines.go line ('\n' :: cs) = String.ofList shown.reverse :: lines.go [] cs ∧
      (shown = line ∨ line = '\r' :: shown) := by
  cases line with
  | nil => exact ⟨[], rfl, .inl rfl⟩
  | cons d line =>
    by_cases hd : d = '\r'
    · subst hd
      exact ⟨line, rfl, .inr rfl⟩
    · exact ⟨d :: line, by simp [lines.go, hd], .inl rfl⟩

theorem lines_go_head (hc : c ≠ '\r') (more line cs : List Char) :
    ∃ shown others, lines.go (more ++ c :: line) cs = String.ofList shown :: others ∧
      (c :: line).reverse <+: shown := by
  have hprefix : ∀ more : List Char, (c :: line).reverse <+: (more ++ c :: line).reverse := by
    intro more
    exact ⟨more.reverse, by simp⟩
  induction cs generalizing more with
  | nil => exact ⟨_, [], by simp [lines.go], hprefix more⟩
  | cons d cs ih =>
    by_cases hd : d = '\n'
    · subst hd
      -- Only the last character can be a carriage return that is dropped, and that is not `c`.
      obtain ⟨shown, hgo, hshown | hshown⟩ := lines_go_newline (more ++ c :: line) cs
      · subst hshown
        exact ⟨_, _, hgo, hprefix more⟩
      · cases more with
        | nil => exact absurd (List.cons.inj hshown).1 hc
        | cons r more =>
          have hrest : more ++ c :: line = shown := (List.cons.inj hshown).2
          exact ⟨_, _, hgo, hrest ▸ hprefix more⟩
    · rw [lines_go_cons hd]
      exact ih (d :: more)

/-- What has been read of a line after `before`, last character first, if `line` was read in front of it. -/
def partialLine (line before : List Char) : List Char :=
  (before.reverse ++ line).takeWhile (· != '\n')

theorem partialLine_newline (line before : List Char) :
    partialLine line ('\n' :: before) = partialLine [] before := by
  have hstop : ('\n' :: line).takeWhile (· != '\n') = [] := rfl
  unfold partialLine
  rw [List.reverse_cons, List.append_assoc, List.singleton_append, List.append_nil, List.takeWhile_append,
    hstop, List.append_nil]
  split
  · next hall => exact ((List.takeWhile_prefix _).eq_of_length hall).symm
  · rfl

theorem partialLine_cons (line before : List Char) (c : Char) :
    partialLine line (c :: before) = partialLine (c :: line) before := by
  rw [partialLine, List.reverse_cons, List.append_assoc, List.singleton_append, partialLine]

theorem getElem?_lines_go (hline : '\n' ∉ line) (before rest : List Char) :
    (lines.go line (before ++ rest))[before.count '\n']? =
      (lines.go (partialLine line before) rest)[0]? := by
  induction before generalizing line with
  | nil =>
    have hall : partialLine line [] = line := by
      refine List.takeWhile_eq_self_iff.mpr fun c hc => ?_
      have hne : c ≠ '\n' := fun heq => hline (heq ▸ hc)
      simpa using hne
    rw [hall]
    rfl
  | cons d before ih =>
    by_cases hd : d = '\n'
    · subst hd
      obtain ⟨shown, hgo, -⟩ := lines_go_newline line (before ++ rest)
      rw [List.cons_append, hgo, List.count_cons_self, List.getElem?_cons_succ, partialLine_newline]
      exact ih List.not_mem_nil
    · rw [List.cons_append, lines_go_cons hd, List.count_cons_of_ne hd, partialLine_cons]
      exact ih (List.not_mem_cons_of_ne_of_not_mem (Ne.symm hd) hline)

theorem lines_go_found (hnewline : c ≠ '\n') (hreturn : c ≠ '\r') (line rest : List Char) :
    ∃ shown, (lines.go line (c :: rest))[0]? = some (String.ofList shown) ∧
      shown[line.length]? = some c := by
  obtain ⟨shown, others, hgo, tail, rfl⟩ := lines_go_head hreturn [] line rest
  refine ⟨(c :: line).reverse ++ tail, ?_, ?_⟩
  · rw [lines_go_cons hnewline]
    exact congrArg (·[0]?) hgo
  · rw [List.reverse_cons, List.append_assoc, List.getElem?_append_right (by simp)]
    simp

theorem length_lines_go_nil (line : List Char) :
    ((lines.go line [])[0]?.getD "").length = line.length := by
  cases line with
  | nil => rfl
  | cons c line => simp [lines.go]

end Lines
end Text

open Query Text

/-- The shown line has the character that was found at the column, and it is not a blank. At the end of
the text the column is the end of the shown line. -/
theorem caret_at_found {input : String} {maxDepth : Nat} {e : SyntaxError}
    (h : parse input maxDepth = .error (.syntaxError e)) :
    (∀ c, e.found = some c → e.excerpt.toList[e.column]? = some c ∧ isBlank c = false) ∧
      (e.found = none → e.offset = byteLength input.toList ∧ e.column = e.excerpt.length) := by
  obtain ⟨before, after, hinput, hlength, hsplit, hblank⟩ := solid_of_syntaxError h
  have hfound : e.found = after.head? := by rw [SyntaxError.found, hsplit]
  have hcolumn : e.column = (partialLine [] before).length := by
    rw [SyntaxError.column, hsplit, partialLine, List.append_nil]
  have hline : e.line - 1 = before.count '\n' := by
    rw [SyntaxError.line, hsplit, Nat.add_sub_cancel]
  have hexcerpt : e.excerpt = (lines.go (partialLine [] before) after)[0]?.getD "" := by
    rw [SyntaxError.excerpt, hline, input_of_syntaxError h, lines, hinput,
      getElem?_lines_go List.not_mem_nil]
  rw [hfound, hcolumn, hexcerpt]
  constructor
  · intro c hc
    obtain ⟨rest, rfl⟩ := List.head?_eq_some_iff.mp hc
    have hsolid : isBlank c = false := hblank c rfl
    have hnewline : c ≠ '\n' := by
      rintro rfl
      cases hsolid
    have hreturn : c ≠ '\r' := by
      rintro rfl
      cases hsolid
    obtain ⟨shown, hshown, hat⟩ := lines_go_found hnewline hreturn (partialLine [] before) rest
    rw [hshown, Option.getD_some, String.toList_ofList]
    exact ⟨hat, hsolid⟩
  · intro hnone
    obtain rfl : after = [] := List.head?_eq_none_iff.mp hnone
    refine ⟨?_, (length_lines_go_nil _).symm⟩
    rw [hinput, List.append_nil, hlength]

theorem caret_at_found_second_line :
    (∃ e, parse "a\r\n\tbé )" 3 = .error (.syntaxError e) ∧ e.found = some ')' ∧ e.line = 2 ∧
      e.excerpt.toList[e.column]? = some ')') ∧
      ∃ e, parse "(a\n" 3 = .error (.syntaxError e) ∧ e.found = none ∧
        e.offset = byteLength "(a\n".toList ∧ e.column = e.excerpt.length := by
  have hclosing : parse "a\r\n\tbé )" 3 = .error (.syntaxError ⟨"a\r\n\tbé )", 8,
      [.keyword .and, .keyword .or, .char '(', .word, .endOfInput],
      [.query, .orExpr, .andExpr, .andSeparator]⟩) := by decide +kernel
  have hend : parse "(a\n" 3 = .error (.syntaxError ⟨"(a\n", 3,
      [.keyword .and, .keyword .or, .char '(', .word, .char ')'],
      [.query, .orExpr, .andExpr, .primary, .group, .orExpr, .andExpr, .andSeparator]⟩) := by
    decide +kernel
  obtain ⟨hfound, -⟩ := caret_at_found hclosing
  obtain ⟨-, hnone⟩ := caret_at_found hend
  refine ⟨⟨_, hclosing, by decide +kernel, by decide +kernel, ?_⟩, _, hend, by decide +kernel, ?_⟩
  · exact (hfound ')' (by decide +kernel)).1
  · exact hnone (by decide +kernel)

end SearchFilter
