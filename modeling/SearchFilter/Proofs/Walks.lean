import SearchFilter.Proofs.SqlReading

/-! Walks over an expression that do not go deeper for a left operand. One goes down the left spine in a
loop, keeps the right operands that it passes and writes them from the foot up; the others keep the
expressions that are still to be visited on a stack. They give what the recursion over the parts gives,
whatever the shape of the expression. -/

namespace SearchFilter.Condition

namespace Fragment

instance : Append Fragment :=
  ⟨fun a b => ⟨a.sql ++ b.sql, a.params ++ b.params⟩⟩

theorem append_eq (a b : Fragment) : a ++ b = ⟨a.sql ++ b.sql, a.params ++ b.params⟩ := rfl

theorem append_assoc (a b c : Fragment) : a ++ b ++ c = a ++ (b ++ c) := by
  simp only [append_eq, String.append_assoc, List.append_assoc]

theorem empty_append (a : Fragment) : (⟨"", []⟩ : Fragment) ++ a = a := by
  simp only [append_eq, String.empty_append, List.nil_append]

def ofText (text : String) : Fragment :=
  ⟨text, []⟩

def link (op : Connective) : Fragment :=
  ofText (" " ++ op.keyword ++ " ")

end Fragment

open Fragment

inductive Operand where
  | word (text : String)
  | group (inner : Expr)

namespace Expr

def texts : Expr → List String
  | word text => [text]
  | binary _ left right => left.texts ++ right.texts
  | group inner => inner.texts

def fragment (column : String) (e : Expr) : Fragment :=
  ⟨e.sql column, e.texts⟩

def size : Expr → Nat
  | word _ => 1
  | binary _ left right => left.size + right.size + 1
  | group inner => inner.size + 1

/-- Goes down the left operands. The right ones that are passed are put on the spine with their
connectives, so the one nearest to the foot comes first. -/
def unwind (spine : List (Connective × Expr)) : Expr → Operand × List (Connective × Expr)
  | word text => (.word text, spine)
  | binary op left right => left.unwind ((op, right) :: spine)
  | group inner => (.group inner, spine)

end Expr

namespace Operand

def fragment (column : String) : Operand → Fragment
  | word text => ⟨column ++ " LIKE ?", [text]⟩
  | group inner => ofText "(" ++ inner.fragment column ++ ofText ")"

def size : Operand → Nat
  | word _ => 1
  | group inner => inner.size + 1

theorem size_pos (operand : Operand) : 0 < operand.size := by
  cases operand <;> simp [size]

end Operand

def spineSize : List (Connective × Expr) → Nat
  | [] => 0
  | (_, right) :: spine => right.size + 1 + spineSize spine

namespace Expr

theorem size_unwind (e : Expr) (spine : List (Connective × Expr)) :
    (e.unwind spine).1.size + spineSize (e.unwind spine).2 = e.size + spineSize spine := by
  induction e generalizing spine with
  | word text => rfl
  | binary op left right ihl _ =>
    rw [unwind, ihl, spineSize, size]
    omega
  | group inner _ => rfl

mutual

def write (column : String) (out : Fragment) (e : Expr) : Fragment :=
  writeSpine column (writeOperand column out (e.unwind []).1) (e.unwind []).2
termination_by 2 * e.size + 1
decreasing_by
  all_goals
    have hsize := e.size_unwind []
    have hpos := (e.unwind []).1.size_pos
    simp only [spineSize] at hsize
    omega

def writeOperand (column : String) (out : Fragment) : Operand → Fragment
  | .word text => out ++ ⟨column ++ " LIKE ?", [text]⟩
  | .group inner => write column (out ++ ofText "(") inner ++ ofText ")"
termination_by operand => 2 * operand.size
decreasing_by
  simp only [Operand.size]
  omega

def writeSpine (column : String) (out : Fragment) : List (Connective × Expr) → Fragment
  | [] => out
  | (op, right) :: spine => writeSpine column (write column (out ++ link op) right) spine
termination_by spine => 2 * spineSize spine
decreasing_by
  all_goals
    simp only [spineSize]
    omega

end

/-- Pops the stack until it is empty. The operands of a connective go back on it, the left one on top. -/
def wordsFrom : (stack : List Expr) → (found : Array String) → Array String
  | [], found => found
  | word text :: stack, found => wordsFrom stack (found.push text)
  | binary _ left right :: stack, found => wordsFrom (left :: right :: stack) found
  | group inner :: stack, found => wordsFrom (inner :: stack) found
termination_by stack => stack.foldr (fun e n => e.size + n) 0
decreasing_by
  all_goals
    simp only [List.foldr_cons, size]
    omega

/-- The operands of a left-nested run of `op`, leftmost first, in front of those found so far. -/
def operands (op : Connective) (found : List Expr) : Expr → List Expr
  | word text => word text :: found
  | binary inner left right =>
    if inner = op then left.operands op (right :: found) else binary inner left right :: found
  | group inner => group inner :: found

def sizes (es : List Expr) : Nat :=
  es.foldr (fun e n => e.size + n) 0

theorem sizes_cons (e : Expr) (es : List Expr) : sizes (e :: es) = e.size + sizes es := rfl

theorem sizes_append (es others : List Expr) : sizes (es ++ others) = sizes es + sizes others := by
  induction es with
  | nil => simp [sizes]
  | cons e es ih => rw [List.cons_append, sizes_cons, sizes_cons, ih, Nat.add_assoc]

theorem sizes_operands_le (op : Connective) (e : Expr) (found : List Expr) :
    sizes (e.operands op found) ≤ e.size + sizes found := by
  induction e generalizing found with
  | word text => exact Nat.le_refl _
  | binary inner left right ihl _ =>
    rw [operands]
    split
    · have hleft := ihl (right :: found)
      rw [sizes_cons] at hleft
      rw [size]
      omega
    · exact Nat.le_refl _
  | group inner _ => exact Nat.le_refl _

theorem sizes_operands_lt (op : Connective) (left right : Expr) :
    sizes ((binary op left right).operands op []) < (binary op left right).size := by
  have hleft := left.sizes_operands_le op [right]
  rw [sizes_cons, show sizes [] = 0 from rfl] at hleft
  rw [operands, if_pos rfl, size]
  -- The connective counts on the right-hand side alone.
  omega

/-- Pops the stack until it is empty. A node is printed with its level, and what stands below it goes on
the stack: for a connective all operands of its run, the leftmost on top. -/
def displayFrom : (stack : List (Expr × Nat)) → (out : String) → String
  | [], out => out
  | (word text, level) :: stack, out =>
    displayFrom stack (out ++ linesOnto.line level ("Word(" ++ Text.quoted text ++ ")"))
  | (binary op left right, level) :: stack, out =>
    displayFrom (((binary op left right).operands op []).map (·, level + 1) ++ stack)
      (out ++ linesOnto.line level op.title)
  | (group inner, level) :: stack, out =>
    displayFrom ((inner, level + 1) :: stack) (out ++ linesOnto.line level "Group")
termination_by stack => sizes (stack.map Prod.fst)
decreasing_by
  · simp only [List.map_cons, sizes_cons, size]
    omega
  · have hrun := sizes_operands_lt op left right
    have hpaired : ∀ es : List Expr, (es.map (·, level + 1)).map Prod.fst = es := by
      simp [Function.comp_def]
    rw [List.map_append, hpaired, sizes_append, List.map_cons, sizes_cons]
    exact Nat.add_lt_add_right hrun _
  · simp only [List.map_cons, sizes_cons, size]
    omega

section Spine

variable (column : String)

theorem fragment_binary (op : Connective) (left right : Expr) :
    (binary op left right).fragment column =
      left.fragment column ++ link op ++ right.fragment column := by
  simp [fragment, sql, texts, link, ofText, append_eq, String.append_assoc]

theorem fragment_group (inner : Expr) :
    (group inner).fragment column = ofText "(" ++ inner.fragment column ++ ofText ")" := by
  simp [fragment, sql, texts, ofText, append_eq]

def join (out : Fragment) (spine : List (Connective × Expr)) : Fragment :=
  spine.foldl (fun out pair => out ++ link pair.1 ++ pair.2.fragment column) out

theorem join_unwind (e : Expr) (out : Fragment) (spine : List (Connective × Expr)) :
    join column (out ++ (e.unwind spine).1.fragment column) (e.unwind spine).2 =
      join column (out ++ e.fragment column) spine := by
  induction e generalizing spine with
  | word text => rfl
  | binary op left right ihl _ =>
    rw [unwind, ihl, fragment_binary, ← append_assoc, ← append_assoc]
    rfl
  | group inner _ =>
    rw [unwind, fragment_group]
    rfl

theorem write_eq (out : Fragment) (e : Expr) : write column out e = out ++ e.fragment column := by
  -- The three parts of the walk call each other, so each has its own statement.
  refine write.induct column (fun out e => write column out e = out ++ e.fragment column)
    (fun out operand => writeOperand column out operand = out ++ operand.fragment column)
    (fun out spine => writeSpine column out spine = join column out spine) ?_ ?_ ?_ ?_ ?_ out e
  · intro out e hoperand hspine
    rw [write, hspine, hoperand, join_unwind]
    rfl
  · intro out text
    rw [writeOperand, Operand.fragment]
  · intro out inner hinner
    rw [writeOperand, hinner, Operand.fragment, append_assoc, append_assoc, append_assoc]
  · intro out
    rw [writeSpine, join, List.foldl_nil]
  · intro out op right spine hright hspine
    rw [writeSpine, hspine, hright, join, join, List.foldl_cons]

end Spine

theorem words_eq_texts (e : Expr) : e.words = e.texts := by
  induction e with
  | word text => rfl
  | binary op left right ihl ihr => rw [words_binary, ihl, ihr, texts]
  | group inner ih => rw [words_group, ih, texts]

theorem toList_wordsFrom (stack : List Expr) (found : Array String) :
    (wordsFrom stack found).toList = found.toList ++ stack.flatMap texts := by
  fun_induction wordsFrom stack found with
  | case1 found => simp
  | case2 found text stack ih => simp [ih, texts]
  | case3 found op left right stack ih => simp [ih, texts]
  | case4 found inner stack ih => simp [ih, texts]

section Display

variable (e : Expr) (level : Nat) (rest : List String)

theorem linesOnto_append (run : Option Connective) :
    e.linesOnto level run rest = e.linesOnto level run [] ++ rest := by
  induction e generalizing level run rest with
  | word text => rfl
  | binary op left right ihl ihr =>
    rw [linesOnto, linesOnto]
    split
    · rw [ihl, ihr, ihl _ (right.linesOnto level none []), List.append_assoc]
    · rw [ihl, ihr, ihl _ (right.linesOnto (level + 1) none []), List.cons_append, List.append_assoc]
  | group inner ih =>
    rw [linesOnto, linesOnto, ih, List.cons_append]

theorem linesOnto_run (op : Connective) (found : List Expr) :
    e.linesOnto level (some op) (found.flatMap (·.linesOnto level none []) ++ rest) =
      (e.operands op found).flatMap (·.linesOnto level none []) ++ rest := by
  induction e generalizing found with
  | word text => rfl
  | binary inner left right ihl _ =>
    rw [operands, linesOnto]
    by_cases hop : inner = op
    · rw [if_pos hop, if_pos (congrArg some hop.symm), ← ihl, List.flatMap_cons, List.append_assoc,
        linesOnto_append right]
    · have hrun : some op ≠ some inner := fun h => hop (Option.some.inj h).symm
      rw [if_neg hop, if_neg hrun, List.flatMap_cons, List.append_assoc, ← linesOnto_append,
        linesOnto, if_neg (Option.some_ne_none inner).symm]
  | group inner _ =>
    rw [operands, List.flatMap_cons, List.append_assoc, ← linesOnto_append]
    rfl

theorem linesOnto_binary (op : Connective) (left right : Expr) :
    (binary op left right).linesOnto level none [] = linesOnto.line level op.title ::
      ((binary op left right).operands op []).flatMap (·.linesOnto (level + 1) none []) := by
  have hrun := left.linesOnto_run (level + 1) [] op [right]
  rw [List.append_nil, List.append_nil, List.flatMap_singleton] at hrun
  rw [linesOnto, if_neg (Option.some_ne_none op).symm, hrun, operands, if_pos rfl]

theorem displayFrom_eq (stack : List (Expr × Nat)) (out : String) :
    displayFrom stack out =
      out ++ String.join (stack.flatMap fun pair => pair.1.linesOnto pair.2 none []) := by
  fun_induction displayFrom stack out with
  | case1 out => simp
  | case2 text level stack out ih =>
    rw [ih, List.flatMap_cons, linesOnto]
    simp [String.append_assoc]
  | case3 op left right level stack out ih =>
    rw [ih, List.flatMap_cons, linesOnto_binary, List.flatMap_append, List.flatMap_map]
    simp [String.append_assoc]
  | case4 inner level stack out ih =>
    rw [ih, List.flatMap_cons, List.flatMap_cons, linesOnto]
    simp [String.append_assoc]

theorem displayFrom_eq_display (e : Expr) : displayFrom [(e, 0)] "" = e.display := by
  rw [displayFrom_eq, display]
  simp

end Display

/-- However an expression is walked, its condition and its words are those of its parts. -/
theorem render_by_parts (column : String) (e : Expr) :
    e.render column = ⟨e.sql column, e.texts⟩ ∧
      write column ⟨"", []⟩ e = ⟨e.sql column, e.texts⟩ ∧
      e.words = e.texts ∧ (wordsFrom [e] #[]).toList = e.texts := by
  have hwords := e.words_eq_texts
  refine ⟨?_, ?_, hwords, ?_⟩
  · rw [render_eq, hwords]
  · rw [write_eq, empty_append, fragment]
  · rw [toList_wordsFrom]
    simp

end Expr
end SearchFilter.Condition
