import Mathlib.Data.List.Forall2
import Mathlib.Data.List.TakeWhile
import Mathlib.Data.Option.Basic
import SearchFilter.Proofs.QuotedText
import SearchFilter.Settings.Config

/-! Settings as text. A document that is written line by line is read back line by line, and reading the
text of any settings gives these settings. -/

namespace SearchFilter.Toml

section Numbers

variable {n : Nat} {c : Char} {cs : List Char}

theorem all_isDigit_toDigits : (Nat.toDigits 10 n).all Char.isDigit = true :=
  List.all_eq_true.mpr fun _ => Nat.isDigit_of_mem_toDigits (by decide) (by decide)

theorem eq_zero_of_head?_toDigits (h : (Nat.toDigits 10 n).head? = some '0') : n = 0 := by
  induction n using Nat.strongRecOn with
  | ind n ih =>
    by_cases hlt : n < 10
    · have hdigit : ∀ n < 10, [n.digitChar].head? = some '0' → n = 0 := by decide
      rw [Nat.toDigits_of_lt_base hlt] at h
      exact hdigit n hlt h
    · have hle := Nat.not_lt.mp hlt
      rw [Nat.toDigits_of_base_le (by decide) hle,
        List.head?_append_of_ne_nil _ Nat.toDigits_ne_nil] at h
      have hzero := ih (n / 10) (by omega) h
      omega

theorem mark_digits (hc : c.isDigit = false) (h : cs.all Char.isDigit = true) :
    Moment.mark c cs = none := by
  cases cs with
  | nil => rfl
  | cons d cs =>
    have hne : d ≠ c := by
      rintro rfl
      simp [hc] at h
    rw [Moment.mark, if_neg hne]

theorem number_rest {width value : Nat} {rest : List Char}
    (h : Moment.number width cs = some (value, rest)) : rest = cs.drop width := by
  rw [Moment.number] at h
  split at h
  · exact (Prod.mk.inj (Option.some.inj h)).2.symm
  · cases h

theorem number_mark_digits {α : Type} {width : Nat} {f : Nat × List Char → List Char → Option α}
    (hc : c.isDigit = false) (h : cs.all Char.isDigit = true) :
    ((Moment.number width cs).bind fun p => (Moment.mark c p.2).bind (f p)) = none := by
  cases hnumber : Moment.number width cs with
  | none => rfl
  | some p =>
    have hdrop : (cs.drop width).all Char.isDigit = true :=
      List.all_eq_true.mpr fun d hd => List.all_eq_true.mp h d (List.mem_of_mem_drop hd)
    have hmark := mark_digits hc hdrop
    rw [← number_rest hnumber] at hmark
    rw [Option.bind_some, hmark, Option.bind_none]

theorem isMoment_digits (h : cs.all Char.isDigit = true) : Moment.isMoment cs = false := by
  have hdate : Moment.afterDate cs = none := number_mark_digits (c := '-') (by decide) h
  have htime : Moment.afterTime cs = none := number_mark_digits (c := ':') (by decide) h
  simp [Moment.isMoment, hdate, htime]

theorem underscoresFit_digits {isDigit : Char → Bool} {fits : Bool}
    (h : cs.all Char.isDigit = true) : underscoresFit isDigit fits cs = true := by
  induction cs generalizing fits with
  | nil => rfl
  | cons c cs ih =>
    rw [List.all_cons, Bool.and_eq_true] at h
    have hc : c ≠ '_' := by
      rintro rfl
      cases h.1
    rw [underscoresFit]
    · exact ih h.2
    · exact fun heq _ => hc heq
    · exact fun _ _ heq _ => hc heq

theorem wholeNumber_toDigits (h : n < Nat.pow 2 64) :
    wholeNumber .none 10 Char.isDigit (dropUnderscores (Nat.toDigits 10 n)) = .integer n := by
  have hdrop : dropUnderscores (Nat.toDigits 10 n) = Nat.toDigits 10 n := by
    refine List.filter_eq_self.mpr fun c hc => ?_
    rw [bne_iff_ne]
    rintro rfl
    exact Nat.underscore_not_in_toDigits hc
  have hne : (Nat.toDigits 10 n).isEmpty = false := by simp
  have hfits : -Int.pow 2 127 ≤ (n : Int) ∧ (n : Int) < Int.pow 2 128 := by
    have hlow : (0 : Int) ≤ Int.pow 2 127 := by decide
    have hhigh : ((Nat.pow 2 64 : Nat) : Int) < Int.pow 2 128 := by decide
    omega
  rw [hdrop, wholeNumber, if_neg (by simp [hne, all_isDigit_toDigits]), if_neg (by decide),
    (numeral_toDigits (by decide) (by decide)).2, Value.ofInt, if_pos hfits]

theorem decimal?_toDigits (h : n < Nat.pow 2 64) :
    decimal? .none (Nat.toDigits 10 n) = some (.integer n) := by
  have hrest : (Nat.toDigits 10 n).dropWhile Char.isDigit = [] :=
    List.dropWhile_eq_nil_iff.mpr (List.all_eq_true.mp all_isDigit_toDigits)
  have hzero : (Nat.toDigits 10 n ≠ ['0'] && (Nat.toDigits 10 n).head? == some '0') = false := by
    rw [Bool.and_eq_false_imp, decide_eq_true_eq, beq_eq_false_iff_ne]
    intro hne hhead
    rw [eq_zero_of_head?_toDigits hhead] at hne
    exact hne (Nat.toDigits_zero 10)
  rw [decimal?]
  simp only [hrest, hzero, underscoresFit_digits all_isDigit_toDigits, wholeNumber_toDigits h]
  simp

theorem scalar?_toDigits (h : n < Nat.pow 2 64) :
    scalar? (Nat.toDigits 10 n) = some (.integer n) := by
  have hword : ∀ word : List Char, word.all Char.isDigit = false → Nat.toDigits 10 n ≠ word := by
    rintro word hword heq
    rw [← heq, all_isDigit_toDigits] at hword
    cases hword
  have hnumber : number? .none (Nat.toDigits 10 n) = some (.integer n) := by
    rw [number?, if_neg (hword _ (by decide)), if_neg (hword _ (by decide)), decimal?_toDigits h]
  have hunsigned : unsigned? (Nat.toDigits 10 n) = some (.integer n) := by
    unfold unsigned?
    split
    · next mark rest heq =>
      -- Only zero starts with a zero, and it has no second digit.
      have hzero := eq_zero_of_head?_toDigits (congrArg List.head? heq)
      rw [hzero, Nat.toDigits_zero] at heq
      cases heq
    · exact hnumber
  unfold scalar?
  rw [if_neg (hword _ (by decide)), if_neg (hword _ (by decide)),
    if_neg (by simp [isMoment_digits all_isDigit_toDigits])]
  split
  · next heq => exact absurd heq (hword _ rfl)
  · next heq => exact absurd heq (hword _ rfl)
  · exact hunsigned

end Numbers

namespace Reader

variable {c stop : Char} {name written cs rest : List Char}

theorem bind_eq {α β : Type} {x : Reader α} {f : α → Reader β} {a : α}
    (h : x cs = some (a, rest)) : (x >>= f) cs = f a rest := by
  show (x cs >>= fun p => f p.1 p.2) = f a rest
  rw [h]
  rfl

theorem peek_bind {α : Type} {f : Option Char → Reader α} {g : Reader α} (h : f cs.head? = g) :
    (peek >>= f) cs = g cs := by
  rw [← h]
  rfl

section Scalars

theorem not_isDigit_of_isStop (h : isStop c = true) : c.isDigit = false := by
  simp only [isStop, isLineEnd, Bool.or_eq_true, beq_iff_eq] at h
  rcases h with (((((((rfl | rfl) | rfl) | rfl) | rfl) | rfl) | rfl) | rfl | rfl) <;> decide

theorem scalarRun_digits (h : cs.all Char.isDigit = true) :
    scalarRun [] (cs ++ '\n' :: rest) = (cs, '\n' :: rest) := by
  induction cs with
  | nil => rfl
  | cons c cs ih =>
    rw [List.all_cons, Bool.and_eq_true] at h
    have hblank : ¬ (c = ' ' ∨ c = '\t') := by
      rintro (rfl | rfl) <;> cases h.1
    have hstop : isStop c = false := by
      by_contra hstop
      rw [not_isDigit_of_isStop (Bool.not_eq_false _ ▸ hstop)] at h
      cases h.1
    rw [List.cons_append, scalarRun, if_neg hblank, ih h.2]
    simp [hstop]

theorem valueWith_scalar {inner : Reader Value} (h : c ∉ ['"', '\'', '[', '{']) :
    valueWith inner (c :: cs) = scalar (c :: cs) := by
  unfold valueWith
  refine peek_bind ?_
  split
  · next hc => exact absurd (by simp [Option.some.inj hc]) h
  · next hc => exact absurd (by simp [Option.some.inj hc]) h
  · next hc => exact absurd (by simp [Option.some.inj hc]) h
  · next hc => exact absurd (by simp [Option.some.inj hc]) h
  · rfl

theorem value_toDigits {n : Nat} (h : n < Nat.pow 2 64) :
    value maxNesting (Nat.toDigits 10 n ++ '\n' :: rest) = some (.integer n, '\n' :: rest) := by
  have hscalar : scalar (Nat.toDigits 10 n ++ '\n' :: rest) = some (.integer n, '\n' :: rest) := by
    rw [scalar, scalarRun_digits all_isDigit_toDigits]
    simp [scalar?_toDigits h]
  obtain ⟨d, ds, heq⟩ := List.exists_cons_of_ne_nil (@Nat.toDigits_ne_nil n 10)
  have hd : d.isDigit = true := Nat.isDigit_of_mem_toDigits (by decide) (by decide)
    (heq ▸ List.mem_cons_self)
  have hmark : d ∉ ['"', '\'', '[', '{'] := by
    simp only [List.mem_cons, List.not_mem_nil, or_false]
    rintro (rfl | rfl | rfl | rfl) <;> cases hd
  rw [heq] at hscalar ⊢
  exact (valueWith_scalar hmark).trans hscalar

theorem value_string {d : Char} {body : List Char} (hd : d = '"' ∨ d = '\'')
    (h : readString (d :: cs) = some (body, rest)) :
    value maxNesting (d :: cs) = some (.string (String.ofList body), rest) := by
  have htext : text readString (d :: cs) = some (String.ofList body, rest) := by
    rw [text, h]
    rfl
  obtain rfl | rfl := hd
  · exact (bind_eq (a := some '"') rfl).trans (bind_eq htext)
  · exact (bind_eq (a := some '\'') rfl).trans (bind_eq htext)

end Scalars

section Keys

def bareKey : Reader String := do
  let name ← takeWhile isBareKey
  guard !name.isEmpty
  return String.ofList name

theorem key_eq (h : c ∉ ['"', '\'']) : key (c :: cs) = bareKey (c :: cs) := by
  unfold key
  refine peek_bind (g := bareKey) ?_
  rw [← bareKey]
  split
  · next hc => exact absurd (by simp [Option.some.inj hc]) h
  · next hc => exact absurd (by simp [Option.some.inj hc]) h
  · rfl

theorem key_bare (hne : name ≠ []) (hbare : name.all isBareKey = true)
    (hstop : isBareKey stop = false) :
    key (name ++ stop :: rest) = some (String.ofList name, stop :: rest) := by
  have hall := List.all_eq_true.mp hbare
  have hnot : ¬ isBareKey stop = true := by simp [hstop]
  have hrun : takeWhile isBareKey (name ++ stop :: rest) = some (name, stop :: rest) := by
    rw [takeWhile, List.takeWhile_append_of_pos hall, List.takeWhile_cons_of_neg hnot,
      List.append_nil, List.dropWhile_append_of_pos hall, List.dropWhile_cons_of_neg hnot]
  obtain ⟨d, ds, rfl⟩ := List.exists_cons_of_ne_nil hne
  have hd : d ∉ ['"', '\''] := by
    have hbare := hall d List.mem_cons_self
    simp only [List.mem_cons, List.not_mem_nil, or_false]
    rintro (rfl | rfl) <;> cases hbare
  exact (key_eq hd).trans (bind_eq hrun)

theorem moreKeys_end {b : Char} {bound : List Char} {seen : List String}
    (h : (cs.dropWhile isBlank).head? ≠ some '.') :
    moreKeys (b :: bound) seen cs = some (seen.reverse, cs.dropWhile isBlank) := by
  unfold moreKeys
  have hblanks : blanks cs = some ((), cs.dropWhile isBlank) := rfl
  rw [bind_eq hblanks]
  refine peek_bind (g := pure seen.reverse) ?_
  split
  · next heq => exact absurd heq h
  · rfl

theorem path_bare (hne : name ≠ []) (hbare : name.all isBareKey = true)
    (hstop : isBareKey stop = false)
    (hdot : ((stop :: rest).dropWhile isBlank).head? ≠ some '.') :
    path (name ++ stop :: rest) =
      some ([String.ofList name], (stop :: rest).dropWhile isBlank) := by
  have hkey := @key_bare stop name rest hne hbare hstop
  obtain ⟨d, ds, rfl⟩ := List.exists_cons_of_ne_nil hne
  exact (bind_eq rfl).trans ((bind_eq hkey).trans (moreKeys_end hdot))

theorem char_cons : char c (c :: rest) = some ((), rest) := by
  simp [char, skip]

theorem keyed_bare {reader : Reader Value} {v : Value} {d : Char} (hne : name ≠ [])
    (hbare : name.all isBareKey = true) (hd : isBlank d = false)
    (hvalue : reader (d :: cs) = some (v, rest)) :
    keyed blanks reader (name ++ ' ' :: '=' :: ' ' :: d :: cs) =
      some (([String.ofList name], v), rest) := by
  have hpath : path (name ++ ' ' :: '=' :: ' ' :: d :: cs) =
      some ([String.ofList name], '=' :: ' ' :: d :: cs) := by
    refine path_bare hne hbare (by decide) ?_
    show some '=' ≠ some '.'
    decide
  have hbefore : blanks ('=' :: ' ' :: d :: cs) = some ((), '=' :: ' ' :: d :: cs) := rfl
  have hafter : blanks (' ' :: d :: cs) = some ((), d :: cs) := by
    simp [blanks, skip, hd, show isBlank ' ' = true from rfl]
  exact (bind_eq hpath).trans <| (bind_eq hbefore).trans <| (bind_eq char_cons).trans <|
    (bind_eq hafter).trans (bind_eq hvalue)

end Keys

section Lines

theorem isBlank_eq_false (h : c ∉ [' ', '\t', '\r']) : isBlank c = false := by
  simpa [isBlank, and_assoc] using h

theorem isBareKey_ne (h : isBareKey c = true) : isBlank c = false ∧ c ∉ ['[', '#', '\n'] := by
  constructor
  · apply isBlank_eq_false
    simp only [List.mem_cons, List.not_mem_nil, or_false]
    rintro (rfl | rfl | rfl) <;> cases h
  · simp only [List.mem_cons, List.not_mem_nil, or_false]
    rintro (rfl | rfl | rfl) <;> cases h

/-- The statement `s` stands on a line of its own, whatever the lines after it hold. -/
structure Holds (line : List Char) (s : Statement) : Prop where
  starts : ∃ c more, line = c :: more ∧ isBlank c = false ∧ c ∉ ['#', '\n']
  reads : ∀ rest, statement (line ++ '\n' :: rest) = some (s, '\n' :: rest)

theorem holds_header (hne : name ≠ []) (hbare : name.all isBareKey = true) :
    Holds ('[' :: (name ++ [']'])) (.table [String.ofList name]) := by
  refine ⟨⟨'[', _, rfl, by decide, by decide⟩, fun rest => ?_⟩
  have hpath : path (name ++ ']' :: '\n' :: rest) =
      some ([String.ofList name], ']' :: '\n' :: rest) := by
    refine path_bare hne hbare (by decide) ?_
    show some ']' ≠ some '.'
    decide
  obtain ⟨d, ds, rfl⟩ := List.exists_cons_of_ne_nil hne
  obtain ⟨hblank, hd⟩ := isBareKey_ne (List.all_eq_true.mp hbare d List.mem_cons_self)
  have hblanks : blanks (d :: ds ++ ']' :: '\n' :: rest) =
      some ((), d :: ds ++ ']' :: '\n' :: rest) := by
    simp [blanks, skip, hblank]
  have hline : '[' :: (d :: ds ++ [']']) ++ '\n' :: rest = '[' :: (d :: ds ++ ']' :: '\n' :: rest) := by
    simp
  rw [hline]
  unfold statement
  rw [bind_eq (a := some '[') rfl]
  show (char '[' >>= _) _ = _
  rw [bind_eq char_cons]
  refine (peek_bind (if_neg ?_)).trans ?_
  · simpa using fun heq => hd (by simp [heq])
  · rw [bind_eq hblanks, bind_eq hpath, bind_eq char_cons]
    rfl

theorem holds_entry {v : Value} (hne : name ≠ []) (hbare : name.all isBareKey = true)
    (hwritten : ∃ d more, written = d :: more ∧ isBlank d = false)
    (hvalue : ∀ rest, value maxNesting (written ++ '\n' :: rest) = some (v, '\n' :: rest)) :
    Holds (name ++ ' ' :: '=' :: ' ' :: written) (.entry [String.ofList name] v) := by
  obtain ⟨d, more, rfl, hd⟩ := hwritten
  have hkeyed : ∀ rest, keyed blanks (value maxNesting)
      (name ++ ' ' :: '=' :: ' ' :: d :: more ++ '\n' :: rest) =
        some (([String.ofList name], v), '\n' :: rest) := by
    intro rest
    rw [List.append_assoc]
    exact keyed_bare hne hbare hd (hvalue rest)
  obtain ⟨c, cs, rfl⟩ := List.exists_cons_of_ne_nil hne
  obtain ⟨hblank, hc⟩ := isBareKey_ne (List.all_eq_true.mp hbare c List.mem_cons_self)
  refine ⟨⟨c, _, rfl, hblank, fun hmem => hc (List.mem_cons_of_mem _ hmem)⟩, fun rest => ?_⟩
  unfold statement
  refine (peek_bind (if_neg ?_)).trans (bind_eq (hkeyed rest))
  intro heq
  exact hc (by simp [Option.some.inj heq])

def document (lines : List (List Char)) : List Char :=
  lines.flatMap (· ++ ['\n'])

theorem dropTrivia_document {lines : List (List Char)} {found : List Statement}
    (h : List.Forall₂ Holds lines found) :
    dropTrivia false (document lines) = some (document lines) := by
  cases h with
  | nil => rfl
  | cons hline _ =>
    obtain ⟨c, more, rfl, hblank, hc⟩ := hline.starts
    rw [List.mem_cons, List.mem_singleton, not_or] at hc
    simp [document, dropTrivia, hblank, hc]

theorem statements_document {bound : List Char} {lines : List (List Char)}
    {found seen : List Statement} (h : List.Forall₂ Holds lines found)
    (hbound : lines.length < bound.length) (hcs : dropTrivia false cs = some (document lines)) :
    statements bound seen cs = some (seen.reverse ++ found, []) := by
  induction h generalizing bound seen cs with
  | nil =>
    obtain ⟨b, bound, rfl⟩ := List.exists_cons_of_length_pos hbound
    have htrivia : trivia cs = some ((), []) := by
      rw [trivia, skip, hcs]
      rfl
    unfold statements
    rw [bind_eq htrivia, List.append_nil]
    rfl
  | @cons line s lines found hline htail ih =>
    obtain ⟨b, bound, rfl⟩ := List.exists_cons_of_length_pos (Nat.zero_lt_of_lt hbound)
    have hlines : document (line :: lines) = line ++ '\n' :: document lines := by
      simp [document]
    have htrivia : trivia cs = some ((), line ++ '\n' :: document lines) := by
      rw [trivia, skip, hcs, hlines]
      rfl
    have hrest := @ih (document lines) bound (s :: seen) (Nat.lt_of_succ_lt_succ hbound)
      (dropTrivia_document htail)
    have hend : lineEnd ('\n' :: document lines) = some ((), document lines) := rfl
    unfold statements
    rw [bind_eq htrivia, bind_eq (a := line ++ '\n' :: document lines) rfl, if_neg (by simp)]
    show (statement >>= _) _ = _
    rw [bind_eq (hline.reads _), bind_eq hend, hrest, List.reverse_cons, List.append_assoc]
    rfl

theorem length_le_of_dropTrivia {comment : Bool} (h : dropTrivia comment cs = some rest) :
    rest.length ≤ cs.length := by
  induction cs generalizing comment with
  | nil => simp_all [dropTrivia]
  | cons c cs ih =>
    have htail : ∀ {comment}, dropTrivia comment cs = some rest → rest.length ≤ (c :: cs).length :=
      fun h => Nat.le_succ_of_le (ih h)
    rw [dropTrivia] at h
    split_ifs at h
    · exact htail h
    · exact htail h
    · exact htail h
    · exact htail h
    · exact (congrArg List.length (Option.some.inj h)).ge

end Lines
end Reader

theorem returnsEndLines_of_not_mem {cs : List Char} (h : '\r' ∉ cs) : returnsEndLines cs = true := by
  induction cs with
  | nil => rfl
  | cons c cs ih =>
    rw [List.mem_cons, not_or] at h
    rw [returnsEndLines]
    · exact ih h.2
    · exact fun heq _ => h.1 heq.symm
    · exact fun _ _ heq _ => h.1 heq.symm

theorem parse_ofList {cs : List Char} (h : cs.head? ≠ some '\ufeff') :
    parse (String.ofList cs) =
      if returnsEndLines cs then
        (Reader.statements cs [] cs).bind fun found =>
          (found.1.foldlM Outline.add {}).bind fun outline => some (entryValues outline.entries)
      else none := by
  have hdrop : dropByteOrderMark cs = cs := by
    unfold dropByteOrderMark
    split
    · exact absurd rfl h
    · rfl
  unfold parse
  rw [String.toList_ofList, hdrop]
  show ((if returnsEndLines cs then pure () else failure : Option Unit) >>= _) = _
  split
  · rfl
  · rfl

end SearchFilter.Toml

namespace SearchFilter.Settings

open Toml Toml.Reader

variable {options : Options} {cs : List Char}

def settingsLines (options : Options) : List (List Char) :=
  ["[query]".toList, "column = ".toList ++ writeChars options.column.toList,
    "max_depth = ".toList ++ Nat.toDigits 10 options.maxDepth]

theorem toList_toToml : (toToml options).toList = document (settingsLines options) := by
  have hstart : "[query]\ncolumn = ".toList = "[query]".toList ++ (['\n'] ++ "column = ".toList) := by
    decide
  have hmiddle : (toString "\nmax_depth = ").toList = ['\n'] ++ "max_depth = ".toList := by decide
  have hend : (toString "\n").toList = ['\n'] := by decide
  have hdigits : (toString options.maxDepth).toList = Nat.toDigits 10 options.maxDepth :=
    Nat.toList_repr
  unfold toToml
  simp only [String.toList_append, writeString, String.toList_ofList, hstart, hmiddle, hend, hdigits,
    settingsLines, document, List.flatMap_cons, List.flatMap_nil, List.append_assoc, List.append_nil]

theorem settingsLines_hold (h : options.maxDepth < Nat.pow 2 64) :
    List.Forall₂ Holds (settingsLines options)
      [.table ["query"], .entry ["column"] (.string options.column),
        .entry ["max_depth"] (.integer options.maxDepth)] := by
  have hcolumn : ∀ rest, value maxNesting (writeChars options.column.toList ++ '\n' :: rest) =
      some (.string options.column, '\n' :: rest) := by
    intro rest
    have hread : readString (writeChars options.column.toList ++ '\n' :: rest) =
        some (options.column.toList, '\n' :: rest) := readString_writeChars (by simp)
    obtain ⟨quote, more, heq, hquote⟩ := writeChars_eq_cons options.column.toList
    rw [heq, List.cons_append] at hread ⊢
    rw [value_string hquote hread, String.ofList_toList]
  have hquote : ∃ d more, writeChars options.column.toList = d :: more ∧ isBlank d = false := by
    obtain ⟨quote, more, heq, rfl | rfl⟩ := writeChars_eq_cons options.column.toList
    · exact ⟨_, more, heq, rfl⟩
    · exact ⟨_, more, heq, rfl⟩
  have hdigit : ∃ d more, Nat.toDigits 10 options.maxDepth = d :: more ∧ isBlank d = false := by
    obtain ⟨d, more, heq⟩ := List.exists_cons_of_ne_nil (@Nat.toDigits_ne_nil options.maxDepth 10)
    have hd : d.isDigit = true := Nat.isDigit_of_mem_toDigits (by decide) (by decide)
      (heq ▸ List.mem_cons_self)
    refine ⟨d, more, heq, isBlank_eq_false ?_⟩
    simp only [List.mem_cons, List.not_mem_nil, or_false]
    rintro (rfl | rfl | rfl) <;> cases hd
  refine .cons ?_ (.cons ?_ (.cons ?_ .nil))
  · exact @holds_header "query".toList (by decide) (by decide)
  · exact @holds_entry "column".toList _ _ (by decide) (by decide) hquote hcolumn
  · exact @holds_entry "max_depth".toList _ _ (by decide) (by decide) hdigit
      fun _ => value_toDigits h

theorem foldlM_cons_ok {α β ε : Type} {f : β → α → Except ε β} {x : α} {xs : List α} {a b : β}
    (h : f a x = .ok b) : (x :: xs).foldlM f a = xs.foldlM f b := by
  rw [List.foldlM_cons, h]
  rfl

def settingsEntries (options : Options) : List (String × Value) :=
  [("query", .table [("column", .string options.column), ("max_depth", .integer options.maxDepth)])]

theorem readCount_natCast {n : Nat} (h : n < Nat.pow 2 64) : readCount (.integer n) = .ok n := by
  have hpow : Int.pow 2 64 = ((Nat.pow 2 64 : Nat) : Int) := by decide
  rw [readCount, if_pos (by omega)]
  rfl

theorem foldlM_settingsEntries (h : options.maxDepth < Nat.pow 2 64) :
    (settingsEntries options).foldlM Layer.add {} =
      .ok ⟨none, some ⟨some options.column, some options.maxDepth⟩⟩ := by
  have hcolumn : QueryLayer.add {} ("column", .string options.column) =
      .ok ⟨some options.column, none⟩ := rfl
  have hdepth : QueryLayer.add ⟨some options.column, none⟩ ("max_depth", .integer options.maxDepth) =
      .ok ⟨some options.column, some options.maxDepth⟩ := by
    simp [QueryLayer.add, readCount_natCast h]
  have hquery : QueryLayer.ofValue (.table [("column", .string options.column),
      ("max_depth", .integer options.maxDepth)]) =
        .ok ⟨some options.column, some options.maxDepth⟩ := by
    rw [QueryLayer.ofValue, foldlM_cons_ok hcolumn, foldlM_cons_ok hdepth]
    rfl
  refine foldlM_cons_ok ?_
  simp [Layer.add, hquery]

theorem toml_parse_settings (h : options.maxDepth < Nat.pow 2 64)
    (hmark : cs.head? ≠ some '\ufeff') (hreturns : returnsEndLines cs = true)
    (hcs : dropTrivia false cs = some (document (settingsLines options))) :
    Toml.parse (String.ofList cs) = some (settingsEntries options) := by
  have hbound : 3 < cs.length := by
    have hlong : 8 ≤ (document (settingsLines options)).length := by
      simp [document, settingsLines]
    have hle := length_le_of_dropTrivia hcs
    omega
  have hstatements : statements cs [] cs = some (_, []) :=
    statements_document (settingsLines_hold h) hbound hcs
  rw [parse_ofList hmark, if_pos hreturns, hstatements]
  rfl

theorem parse_settings (h : options.maxDepth < Nat.pow 2 64)
    (hmark : cs.head? ≠ some '\ufeff') (hreturns : returnsEndLines cs = true)
    (hcs : dropTrivia false cs = some (document (settingsLines options))) :
    Layer.parse (String.ofList cs) =
      .ok ⟨none, some ⟨some options.column, some options.maxDepth⟩⟩ := by
  rw [Layer.parse, toml_parse_settings h hmark hreturns hcs]
  exact foldlM_settingsEntries h

theorem return_not_mem_settings : '\r' ∉ document (settingsLines options) := by
  have hcolumn : '\r' ∉ writeChars options.column.toList := return_not_mem_writeChars
  have hdigits : '\r' ∉ Nat.toDigits 10 options.maxDepth := fun hmem => by
    cases Nat.isDigit_of_mem_toDigits (by decide) (by decide) hmem
  simp [document, settingsLines, hcolumn, hdigits]

theorem parseSource_toToml (path : Files.Path) (options : Options)
    (h : options.maxDepth < Nat.pow 2 64) :
    parseSource path (toToml options) =
      .ok ⟨path, ⟨none, some ⟨some options.column, some options.maxDepth⟩⟩⟩ := by
  have htext : toToml options = String.ofList (document (settingsLines options)) := by
    rw [← toList_toToml, String.ofList_toList]
  have hparse := parse_settings h (by simp [document, settingsLines])
    (returnsEndLines_of_not_mem return_not_mem_settings) (dropTrivia_document (settingsLines_hold h))
  rw [parseSource, htext, hparse]

theorem parseSource_toToml_mixed :
    18446744073709551615 < Nat.pow 2 64 ∧
    parseSource ⟨"/a/.qsql.toml"⟩ (toToml ⟨"\n'''\"\"\"\"\\\x07\r\n\"\"", 18446744073709551615⟩) =
      .ok ⟨⟨"/a/.qsql.toml"⟩, ⟨none, some ⟨some "\n'''\"\"\"\"\\\x07\r\n\"\"",
        some 18446744073709551615⟩⟩⟩ := by
  have hlt : 18446744073709551615 < Nat.pow 2 64 := by decide
  exact ⟨hlt, parseSource_toToml _ ⟨_, _⟩ hlt⟩

end SearchFilter.Settings
