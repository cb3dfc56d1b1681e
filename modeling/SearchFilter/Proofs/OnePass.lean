import SearchFilter.Proofs.Meaning

/-! Reading a query straight into an expression. The same descent as that of the grammar keeps an
expression at each tier and joins every operand to it as soon as it is read, without a tree or a
draft in between. It ends in the same place, with the expression that the stages would make of the
tree, or stops with the same failure. -/

namespace SearchFilter.Query

open Condition

namespace Scan

variable {α β γ δ : Type}

/-- Reads `item` as often as it matches and adds what it reads to `sum`, at most once more than
`bound` has characters. -/
def sumWithin (add : β → α → β) (item : Scan α) : (bound : List Char) → (sum : β) → Scan β
  | [], sum => do
    match ← attempt item with
    | none => pure sum
    | some a => pure (add sum a)
  | _ :: bound, sum => do
    match ← attempt item with
    | none => pure sum
    | some a => sumWithin add item bound (add sum a)

def sumMany (add : β → α → β) (item : Scan α) (sum : β) : Scan β :=
  fun s => sumWithin add item s.position.rest sum s

end Scan

namespace OnePass

open Scan

def orSeparator : Scan Unit := within .orSeparator do
  let spelled ← attempt do
    let _ ← blanks
    let _ ← keyword .or
    let _ ← blanks
    pure ()
  match spelled with
  | some _ => pure ()
  | none => do
    let _ ← whitespace
    pure ()

def andSeparator : Scan Unit := within .andSeparator do
  let _ ← whitespace
  let _ ← keyword .and
  let _ ← whitespace
  pure ()

def word : Scan Expr := within .word do
  match ← attempt (within .quotedString literal) with
  | some body => pure (.word (String.ofList body))
  | none => return .word (String.ofList (← within .rawWord bareWord))

def operands (op : Connective) (separator : Scan Unit) (operand : Scan Expr) : Scan Expr := do
  let head ← operand
  sumMany (.binary op) (do separator; operand) head

def group (inside : Nat → Scan Expr) : Scan Expr := within .group do
  let opening ← offset
  char '('
  let inner ← inside opening
  pure (.group inner)

def primary (inside : Nat → Scan Expr) : Scan Expr := within .primary do
  match ← attempt (group inside) with
  | some e => pure e
  | none => word

def andExpr (inside : Nat → Scan Expr) : Scan Expr :=
  within .andExpr (operands .and andSeparator (primary inside))

def orExprWith (inside : Nat → Scan Expr) : Scan Expr :=
  within .orExpr (operands .or orSeparator (andExpr inside))

def orExpr : (room : Nat) → Scan Expr
  | 0 => orExprWith fun opening => throw (.tooDeep opening)
  | room + 1 => orExprWith fun _ => do
    let _ ← blanks
    let e ← orExpr room
    let _ ← blanks
    char ')'
    pure e

def query (maxDepth : Nat) : Scan Expr := within .query do
  let _ ← blanks
  let e ← orExpr maxDepth
  let _ ← blanks
  endOfInput
  pure e

def parse (input : String) (maxDepth : Nat) : Except QueryError Expr :=
  if depthLimit < maxDepth then .error (.depthLimitTooHigh maxDepth)
  else match query maxDepth (Scanner.start input.toList) with
    | .ok e _ => .ok e
    | .error .miss s => .error (.syntaxError (s.diagnose input))
    | .error (.tooDeep offset) _ => .error (.tooDeep offset maxDepth)

end OnePass

namespace Scan

variable {α β γ δ : Type} {R : α → β → Prop} {S : γ → δ → Prop} {x : Scan α} {y : Scan β}
  {f : α → Scan γ} {g : β → Scan δ}

inductive Agree (R : α → β → Prop) :
    EStateM.Result Halt Scanner α → EStateM.Result Halt Scanner β → Prop
  | ok {a : α} {b : β} (s : Scanner) : R a b → Agree R (.ok a s) (.ok b s)
  | error (halt : Halt) (s : Scanner) : Agree R (.error halt s) (.error halt s)

def Simulates (R : α → β → Prop) (x : Scan α) (y : Scan β) : Prop :=
  ∀ s, Agree R (x s) (y s)

theorem Simulates.refl (x : Scan α) : Simulates Eq x x := by
  intro s
  rcases x s with ⟨a, s'⟩ | ⟨halt, s'⟩
  · exact .ok s' rfl
  · exact .error halt s'

theorem simulates_pure {a : α} {b : β} (h : R a b) : Simulates R (pure a) (pure b) :=
  fun s => .ok s h

theorem simulates_throw (halt : Halt) : Simulates R (throw halt) (throw halt) :=
  fun s => .error halt s

theorem Simulates.bind (hx : Simulates R x y) (hf : ∀ a b, R a b → Simulates S (f a) (g b)) :
    Simulates S (x >>= f) (y >>= g) := by
  intro s
  show Agree S (EStateM.bind x f s) (EStateM.bind y g s)
  unfold EStateM.bind
  have hs := hx s
  revert hs
  generalize x s = r, y s = r'
  rintro (⟨s', hab⟩ | ⟨halt, s'⟩)
  · exact hf _ _ hab s'
  · exact .error halt s'

theorem Simulates.after {ε : Type} {z : Scan ε} {f : ε → Scan α} {g : ε → Scan β}
    (h : ∀ a, Simulates R (f a) (g a)) : Simulates R (z >>= f) (z >>= g) := by
  refine (Simulates.refl z).bind ?_
  rintro a _ rfl
  exact h a

theorem Simulates.offset_bind {f : Nat → Scan α} (h : ∀ n, Simulates R (f n) y) :
    Simulates R (offset >>= f) y :=
  fun s => h s.position.offset s

theorem Simulates.within (h : Simulates R x y) (rule : Rule) :
    Simulates R (within rule x) (within rule y) := by
  intro s
  unfold Scan.within
  have hs := h (s.enter rule)
  revert hs
  generalize x (s.enter rule) = r, y (s.enter rule) = r'
  rintro (⟨s', hab⟩ | ⟨halt, s'⟩)
  · exact .ok s'.leave hab
  · exact .error halt s'.leave

theorem Simulates.attempt_bind {f : Option α → Scan γ} {g : Option β → Scan δ}
    (h : Simulates R x y) (hsome : ∀ a b, R a b → Simulates S (f (some a)) (g (some b)))
    (hnone : Simulates S (f none) (g none)) : Simulates S (attempt x >>= f) (attempt y >>= g) := by
  intro s
  show Agree S (EStateM.bind (attempt x) f s) (EStateM.bind (attempt y) g s)
  unfold EStateM.bind Scan.attempt
  have hs := h s
  revert hs
  generalize x s = r, y s = r'
  rintro (⟨s', hab⟩ | ⟨halt, s'⟩)
  · exact hsome _ _ hab s'
  · cases halt with
    | miss => exact hnone (s'.reset s.position)
    | tooDeep o => exact .error _ s'

theorem Simulates.manyWithin (h : Simulates R x y) (bound : List Char) {as : List α} {bs : List β}
    (hfound : List.Forall₂ R as.reverse bs.reverse) :
    Simulates (List.Forall₂ R) (manyWithin x bound as) (manyWithin y bound bs) := by
  have hnext : ∀ {as : List α} {bs : List β} {a : α} {b : β}, R a b →
      List.Forall₂ R as.reverse bs.reverse → List.Forall₂ R (a :: as).reverse (b :: bs).reverse := by
    intro as bs a b hab hfound
    rw [List.reverse_cons, List.reverse_cons]
    exact List.rel_append hfound (.cons hab .nil)
  induction bound generalizing as bs with
  | nil =>
    rw [manyWithin_nil, manyWithin_nil]
    refine h.attempt_bind (fun a b hab => ?_) (simulates_pure hfound)
    exact simulates_pure (hnext hab hfound)
  | cons c bound ih =>
    rw [manyWithin_cons, manyWithin_cons]
    refine h.attempt_bind (fun a b hab => ?_) (simulates_pure hfound)
    exact ih (hnext hab hfound)

theorem Simulates.many (h : Simulates R x y) : Simulates (List.Forall₂ R) (many x) (many y) :=
  fun s => h.manyWithin s.position.rest .nil s

theorem sumWithin_eq (add : β → α → β) (item : Scan α) (sum : β) (bound : List Char)
    (found : List α) :
    sumWithin add item bound (found.reverse.foldl add sum) =
      manyWithin item bound found >>= fun as => pure (as.foldl add sum) := by
  have hnext : ∀ (found : List α) (a : α),
      add (found.reverse.foldl add sum) a = (a :: found).reverse.foldl add sum := by
    simp
  induction bound generalizing found with
  | nil =>
    rw [manyWithin_nil, sumWithin, bind_assoc]
    congr 1
    funext result
    cases result with
    | none => rw [pure_bind]
    | some a => rw [pure_bind, ← hnext]
  | cons c bound ih =>
    rw [manyWithin_cons, sumWithin, bind_assoc]
    congr 1
    funext result
    cases result with
    | none => rw [pure_bind]
    | some a =>
      show sumWithin add item bound (add (found.reverse.foldl add sum) a) =
        manyWithin item bound (a :: found) >>= fun as => pure (as.foldl add sum)
      rw [hnext, ih]

theorem sumMany_eq (add : β → α → β) (item : Scan α) (sum : β) :
    sumMany add item sum = many item >>= fun as => pure (as.foldl add sum) := by
  funext s
  exact congrFun (sumWithin_eq add item sum s.position.rest []) s

end Scan

namespace OnePass

open Scan

def IsMark (t : SyntaxTree) (_ : Unit) : Prop :=
  ∃ start text, t = .leaf start text

theorem orSeparator_simulates : Simulates IsMark Grammar.orSeparator orSeparator := by
  refine Simulates.within ?_ _
  refine .offset_bind fun start => ?_
  have hspelled : Simulates (fun (_ : List Char) (_ : Unit) => True)
      (do
        let before ← blanks
        let name ← keyword .or
        let after ← blanks
        pure (before ++ name ++ after))
      (do
        let _ ← blanks
        let _ ← keyword .or
        let _ ← blanks
        pure ()) :=
    .after fun _ => .after fun _ => .after fun _ => simulates_pure trivial
  refine hspelled.attempt_bind (fun text _ _ => ?_) ?_
  · exact simulates_pure ⟨start, text, rfl⟩
  · exact .after fun text => simulates_pure ⟨start, text, rfl⟩

theorem andSeparator_simulates : Simulates IsMark Grammar.andSeparator andSeparator := by
  refine Simulates.within ?_ _
  refine .offset_bind fun start => ?_
  exact .after fun _ => .after fun _ => .after fun _ => simulates_pure ⟨start, _, rfl⟩

theorem word_simulates : Simulates Denotes Grammar.word word := by
  refine Simulates.within ?_ _
  refine .offset_bind fun start => ?_
  refine (Simulates.refl _).attempt_bind ?_ ?_
  · rintro body _ rfl
    exact simulates_pure denotes_quoted
  · exact .after fun text => simulates_pure denotes_bare

variable (op : Connective) {separator : Scan SyntaxTree} {mark : Scan Unit}
  {operand : Scan SyntaxTree} {operand' : Scan Expr} {inside : Nat → Scan SyntaxTree}
  {inside' : Nat → Scan Expr}

theorem pair_simulates (hmark : Simulates IsMark separator mark)
    (hoperand : Simulates Denotes operand operand') :
    Simulates (PairDenotes op)
      (do
        let mark ← separator
        let right ← operand
        pure (SyntaxTree.pair op.tag mark right))
      (do mark; operand') := by
  refine hmark.bind ?_
  rintro _ _ ⟨start, text, rfl⟩
  have hright : ∀ t e, Denotes t e → Simulates (PairDenotes op)
      (pure (SyntaxTree.pair op.tag (.leaf start text) t)) (pure e) :=
    fun t e he => simulates_pure (he.pair op)
  simpa using hoperand.bind hright

theorem operands_simulates (hmark : Simulates IsMark separator mark)
    (hoperand : Simulates Denotes operand operand') :
    Simulates Denotes (Grammar.operands op.tag separator operand)
      (operands op mark operand') := by
  refine hoperand.bind fun head e he => ?_
  rw [sumMany_eq]
  refine (pair_simulates op hmark hoperand).many.bind fun pairs es hes => ?_
  exact simulates_pure (he.chain hes)

theorem primary_simulates (h : ∀ opening, Simulates Denotes (inside opening) (inside' opening)) :
    Simulates Denotes (Grammar.primary inside) (primary inside') := by
  have hgroup : Simulates Denotes (Grammar.group inside) (group inside') := by
    refine Simulates.within ?_ _
    refine .after fun opening => .after fun _ => (h opening).bind fun t e he => ?_
    exact simulates_pure he.group
  refine Simulates.within ?_ _
  exact hgroup.attempt_bind (fun t e he => simulates_pure he) word_simulates

theorem orExprWith_simulates (h : ∀ opening, Simulates Denotes (inside opening) (inside' opening)) :
    Simulates Denotes (Grammar.orExprWith inside) (orExprWith inside') := by
  have hand : Simulates Denotes (Grammar.andExpr inside) (andExpr inside') :=
    (operands_simulates .and andSeparator_simulates (primary_simulates h)).within .andExpr
  exact (operands_simulates .or orSeparator_simulates hand).within .orExpr

theorem orExpr_simulates (room : Nat) : Simulates Denotes (Grammar.orExpr room) (orExpr room) := by
  induction room with
  | zero => exact orExprWith_simulates fun opening => simulates_throw (.tooDeep opening)
  | succ room ih =>
    refine orExprWith_simulates fun opening => .after fun _ => ih.bind fun t e he => ?_
    exact .after fun _ => .after fun _ => simulates_pure he

theorem query_simulates (maxDepth : Nat) :
    Simulates Denotes (Grammar.query maxDepth) (query maxDepth) := by
  refine Simulates.within ?_ _
  refine .after fun _ => (orExpr_simulates maxDepth).bind fun t e he => ?_
  exact .after fun _ => .after fun _ => simulates_pure he

end OnePass
end Query

open Query Condition

/-- Folding while parsing gives what the stages give, with the same failures. -/
theorem onePass_parse_eq (input : String) (maxDepth : Nat) :
    OnePass.parse input maxDepth =
      (do resolve (← draftOf (← parse input maxDepth))) := by
  unfold OnePass.parse parse
  split
  · rfl
  · have hrun := OnePass.query_simulates maxDepth (Scanner.start input.toList)
    revert hrun
    generalize Grammar.query maxDepth (Scanner.start input.toList) = r,
      OnePass.query maxDepth (Scanner.start input.toList) = r'
    rintro (⟨s, he⟩ | ⟨halt, s⟩)
    · obtain ⟨draft, hdraft, he⟩ := he.stages
      show _ = draftOf _ >>= resolve
      rw [hdraft]
      exact he.symm
    · cases halt <;> rfl

end SearchFilter
