import SearchFilter.Proofs.Meaning

/-! Reading conditions back. SQL reads a condition with `and` before `or`, both from left to right;
rendering adds no parentheses of its own, so this gives the expression back only because the
connectives of a query already bind that way. -/

namespace SearchFilter

open Query

namespace Condition

inductive Template where
  | hole
  | binary (op : Connective) (left right : Template)
  | group (inner : Template)
  deriving DecidableEq, Repr

/-- Puts words in the places of the question marks, from left to right, and returns those left. -/
def Template.fill : Template → List String → Option (Expr × List String)
  | hole, [] => none
  | hole, w :: ws => some (.word w, ws)
  | binary op left right, ws => do
    let (l, ws) ← left.fill ws
    let (r, ws) ← right.fill ws
    return (.binary op l r, ws)
  | group inner, ws => do
    let (e, ws) ← inner.fill ws
    return (.group e, ws)

def Expr.template : Expr → Template
  | word _ => .hole
  | binary op left right => .binary op left.template right.template
  | group inner => .group inner.template

theorem Template.fill_template (e : Expr) (rest : List String) :
    e.template.fill (e.words ++ rest) = some (e, rest) := by
  induction e generalizing rest with
  | word text => rfl
  | binary op left right ihl ihr =>
    rw [Expr.words_binary, List.append_assoc, Expr.template, fill, ihl]
    simp [ihr]
  | group inner ih =>
    rw [Expr.words_group, Expr.template, fill, ih]
    rfl

theorem isNamePart_of_isNameStart {c : Char} (h : isNameStart c = true) : isNamePart c = true := by
  have hcases : (c.isAlpha || c == '_') = true := h
  have hpart : isNamePart c = ((c.isAlpha || c.isDigit) || c == '_') := rfl
  obtain halpha | hunderscore := Bool.or_eq_true_iff.mp hcases
  · rw [hpart, halpha, Bool.true_or, Bool.true_or]
  · rw [hpart, hunderscore, Bool.or_true]

theorem all_of_startsName (cs : List Char) :
    (startsName cs = true → ∀ c ∈ cs, isNamePart c = true ∨ c = '.') ∧
      (continuesName cs = true → ∀ c ∈ cs, isNamePart c = true ∨ c = '.') := by
  induction cs with
  | nil => simp
  | cons c cs ih =>
    refine ⟨fun h => ?_, fun h => ?_⟩
    · obtain ⟨hc, hcs⟩ : isNameStart c = true ∧ continuesName cs = true := by
        simpa [startsName] using h
      exact List.forall_mem_cons.mpr ⟨.inl (isNamePart_of_isNameStart hc), ih.2 hcs⟩
    · rw [continuesName] at h
      split at h
      · next hc => exact List.forall_mem_cons.mpr ⟨.inr hc, ih.1 h⟩
      · obtain ⟨hc, hcs⟩ : isNamePart c = true ∧ continuesName cs = true := by simpa using h
        exact List.forall_mem_cons.mpr ⟨.inl hc, ih.2 hcs⟩

theorem isNamePart_or_dot {column : String} {c : Char} (h : isColumn column = true)
    (hc : c ∈ column.toList) : isNamePart c = true ∨ c = '.' :=
  (all_of_startsName column.toList).1 h c hc

namespace Sql

/-- A part of a condition: the text from its start on, what it says and the text after it. -/
abbrev Clause := List Char → Template → List Char → Prop

inductive Linked (op : Connective) (operand : Clause) : Clause
  | mk {cs rest : List Char} {t : Template} :
    operand cs t rest → Linked op operand (op.link ++ cs) t rest

inductive Joined (op : Connective) (operand : Clause) : Clause
  | mk {cs mid rest : List Char} {head : Template} {ts : List Template} :
    operand cs head mid → Star (Linked op operand) mid ts rest →
    Joined op operand cs (ts.foldl (.binary op) head) rest

inductive Prim (column : String) : List Char → Template → List Char → Prop
  | predicate (rest : List Char) :
    Prim column (column.toList ++ " LIKE ?".toList ++ rest) .hole rest
  | group {cs rest : List Char} {t : Template} :
    Joined .or (Joined .and (Prim column)) cs t (')' :: rest) →
    Prim column ('(' :: cs) (.group t) rest

abbrev AndList (column : String) : Clause := Joined .and (Prim column)

abbrev OrList (column : String) : Clause := Joined .or (AndList column)

def Reads (column sql : String) (t : Template) : Prop :=
  OrList column sql.toList t []

theorem Prim.induct {column : String} {motive : Clause}
    (predicate : ∀ rest, motive (column.toList ++ " LIKE ?".toList ++ rest) .hole rest)
    (group : ∀ {cs rest t}, Joined .or (Joined .and motive) cs t (')' :: rest) →
      motive ('(' :: cs) (.group t) rest)
    {cs rest : List Char} {t : Template} (h : Prim column cs t rest) : motive cs t rest := by
  refine @Prim.rec column (fun cs t rest _ => motive cs t rest)
    (fun cs t rest _ => Joined .or (Joined .and motive) cs t rest)
    (fun cs t rest _ => Joined .and motive cs t rest)
    (fun cs ts rest _ => Star (Linked .or (Joined .and motive)) cs ts rest)
    (fun cs ts rest _ => Star (Linked .and motive) cs ts rest)
    (fun cs t rest _ => Linked .or (Joined .and motive) cs t rest)
    (fun cs t rest _ => Linked .and motive cs t rest)
    predicate (fun _ => group) ?_ ?_ ?_ ?_ ?_ ?_ ?_ ?_ cs t rest h
  · intro cs mid rest head ts _ _ hhead hlinks
    exact ⟨hhead, hlinks⟩
  · intro cs mid rest head ts _ _ hhead hlinks
    exact ⟨hhead, hlinks⟩
  · exact .nil
  · intro cs mid rest t ts _ _ hlink hlinks
    exact .cons hlink hlinks
  · exact .nil
  · intro cs mid rest t ts _ _ hlink hlinks
    exact .cons hlink hlinks
  · intro cs rest t _ ht
    exact ⟨ht⟩
  · intro cs rest t _ ht
    exact ⟨ht⟩

/-- Two ways to read a part agree on what it says and where it ends, if both end where `stop`
holds. -/
def Agree (stop : List Char → Prop) (one other : Clause) : Prop :=
  ∀ cs t rest t' rest', one cs t rest → other cs t' rest' → stop rest → stop rest' →
    t = t' ∧ rest = rest'

section Joined

variable {op : Connective} {one other operand : Clause} {stop stop' : List Char → Prop}
  {cs mid rest rest' : List Char} {t : Template} {ts ts' : List Template}

theorem stop_of_links (hlink : ∀ cs, stop (op.link ++ cs)) (hrest : stop rest)
    (h : Star (Linked op operand) mid ts rest) : stop mid := by
  cases h with
  | nil => exact hrest
  | cons hitem _ =>
    obtain ⟨-⟩ := hitem
    exact hlink _

theorem links_agree (h : Agree stop one other) (hlink : ∀ cs, stop (op.link ++ cs))
    (hstop : ∀ cs, stop' cs → stop cs ∧ ¬ op.link <+: cs)
    (hone : Star (Linked op one) mid ts rest) (hother : Star (Linked op other) mid ts' rest')
    (hrest : stop' rest) (hrest' : stop' rest') : ts = ts' ∧ rest = rest' := by
  induction hone generalizing ts' with
  | nil mid =>
    cases hother with
    | nil => exact ⟨rfl, rfl⟩
    | cons hitem _ =>
      obtain ⟨-⟩ := hitem
      exact absurd (List.prefix_append _ _) (hstop _ hrest).2
  | cons hitem hlinks ih =>
    obtain ⟨ht⟩ := hitem
    generalize hmid : op.link ++ _ = mid at hother
    cases hother with
    | nil => exact absurd (hmid ▸ List.prefix_append _ _) (hstop _ hrest').2
    | cons hitem' hlinks' =>
      obtain ⟨ht'⟩ := hitem'
      obtain rfl := List.append_cancel_left hmid
      obtain ⟨rfl, rfl⟩ := h _ _ _ _ _ ht ht' (stop_of_links hlink (hstop _ hrest).1 hlinks)
        (stop_of_links hlink (hstop _ hrest').1 hlinks')
      obtain ⟨rfl, rfl⟩ := ih hlinks' hrest
      exact ⟨rfl, rfl⟩

theorem Agree.joined (h : Agree stop one other) (hlink : ∀ cs, stop (op.link ++ cs))
    (hstop : ∀ cs, stop' cs → stop cs ∧ ¬ op.link <+: cs) :
    Agree stop' (Joined op one) (Joined op other) := by
  rintro cs t rest t' rest' ⟨hhead, hlinks⟩ ⟨hhead', hlinks'⟩ hrest hrest'
  obtain ⟨rfl, rfl⟩ := h _ _ _ _ _ hhead hhead' (stop_of_links hlink (hstop _ hrest).1 hlinks)
    (stop_of_links hlink (hstop _ hrest').1 hlinks')
  obtain ⟨rfl, rfl⟩ := links_agree h hlink hstop hlinks hlinks' hrest hrest'
  exact ⟨rfl, rfl⟩

theorem Joined.single (h : operand cs t rest) : Joined op operand cs t rest :=
  .mk h (.nil rest)

theorem Joined.snoc {u : Template} (h : Joined op operand cs t (op.link ++ mid))
    (hu : operand mid u rest) : Joined op operand cs (.binary op t u) rest := by
  generalize hlink : op.link ++ mid = after at h
  obtain ⟨hhead, hlinks⟩ := h
  subst hlink
  have hall := Joined.mk hhead (hlinks.append (.cons ⟨hu⟩ (.nil rest)))
  rwa [List.foldl_append] at hall

end Joined

def Ends (cs : List Char) : Prop :=
  ∀ c ∈ cs.head?, c = ')'

theorem Ends.not_link {cs : List Char} (h : Ends cs) (op : Connective) : ¬ op.link <+: cs := by
  rintro ⟨rest, rfl⟩
  exact absurd (h ' ' rfl) (by decide)

theorem Agree.orList {one other : Clause} (h : Agree (fun _ => True) one other) :
    Agree Ends (Joined .or (Joined .and one)) (Joined .or (Joined .and other)) := by
  have hand : Agree (fun cs => ¬ Connective.and.link <+: cs) (Joined .and one)
      (Joined .and other) :=
    h.joined (fun _ => trivial) fun _ hcs => ⟨trivial, hcs⟩
  apply hand.joined
  -- The operands of `or` end at the next `or`, where no `and` can continue them.
  · rintro cs ⟨rest, hrest⟩
    exact absurd hrest (by simp [Connective.link, Connective.keyword])
  · exact fun cs hcs => ⟨hcs.not_link .and, hcs.not_link .or⟩

theorem column_ne_parenthesis {column : String} (hc : isColumn column = true)
    (after cs : List Char) : column.toList ++ after ≠ '(' :: cs := by
  intro heq
  cases hname : column.toList with
  | nil => exact absurd hc (by simp [isColumn, hname, startsName])
  | cons c name =>
    obtain rfl : c = '(' := (List.cons.inj (hname ▸ heq)).1
    have hmem : '(' ∈ column.toList := by simp [hname]
    exact absurd (isNamePart_or_dot hc hmem) (by decide)

theorem Prim.unique {column : String} (hc : isColumn column = true) {cs rest rest' : List Char}
    {t t' : Template} (h : Prim column cs t rest) (h' : Prim column cs t' rest') :
    t = t' ∧ rest = rest' := by
  revert t' rest'
  refine h.induct (motive := fun cs t rest => ∀ {t' rest'}, Prim column cs t' rest' →
    t = t' ∧ rest = rest') ?_ ?_
  · intro rest t' rest' h'
    generalize hcs : column.toList ++ " LIKE ?".toList ++ rest = cs at h'
    cases h' with
    | predicate => exact ⟨rfl, List.append_cancel_left hcs⟩
    | group =>
      rw [List.append_assoc] at hcs
      exact absurd hcs (column_ne_parenthesis hc _ _)
  · intro cs rest t ht t' rest' h'
    generalize hcs : '(' :: cs = cs' at h'
    cases h' with
    | predicate =>
      rw [List.append_assoc] at hcs
      exact absurd hcs.symm (column_ne_parenthesis hc _ _)
    | group ht' =>
      obtain rfl := (List.cons.inj hcs).2
      obtain ⟨rfl, hrest⟩ := Agree.orList (fun _ _ _ _ _ h h' _ _ => h h') _ _ _ _ _ ht ht'
        (by simp [Ends]) (by simp [Ends])
      exact ⟨rfl, (List.cons.inj hrest).2⟩

end Sql

def Expr.sql (column : String) : Expr → String
  | word _ => column ++ " LIKE ?"
  | binary op left right => left.sql column ++ " " ++ op.keyword ++ " " ++ right.sql column
  | group inner => "(" ++ inner.sql column ++ ")"

theorem Expr.join_piecesOnto (column : String) (e : Expr) (rest : List String) :
    String.join (e.piecesOnto (column ++ " LIKE ?") rest) = e.sql column ++ String.join rest := by
  induction e generalizing rest with
  | word text => rw [piecesOnto, String.join_cons, sql]
  | binary op left right ihl ihr =>
    simp only [piecesOnto, sql, ihl, ihr, String.join_cons, String.append_assoc]
  | group inner ih => simp only [piecesOnto, sql, ih, String.join_cons, String.append_assoc]

theorem Expr.render_eq (column : String) (e : Expr) :
    e.render column = ⟨e.sql column, e.words⟩ := by
  rw [render, join_piecesOnto, String.join_nil, String.append_empty]

namespace Sql

variable {column : String}

theorem toList_sql_binary (op : Connective) (left right : Expr) (rest : List Char) :
    ((Expr.binary op left right).sql column).toList ++ rest =
      (left.sql column).toList ++ (op.link ++ ((right.sql column).toList ++ rest)) := by
  simp [Expr.sql, Connective.link]

def AtLevel (column : String) : Nat → Clause
  | 0 => Prim column
  | 1 => AndList column
  | _ => OrList column

theorem AtLevel.mono {m n : Nat} (hmn : m ≤ n) {cs rest : List Char} {t : Template}
    (h : AtLevel column m cs t rest) : AtLevel column n cs t rest := by
  induction hmn with
  | refl => exact h
  | @step n _ ih =>
    match n, ih with
    | 0, ih => exact .single ih
    | 1, ih => exact .single ih
    | _ + 2, ih => exact ih

theorem reads_sql (column : String) {e : Expr} (h : e.WellTiered) (rest : List Char) :
    AtLevel column e.level ((e.sql column).toList ++ rest) e.template rest := by
  induction e generalizing rest with
  | word text =>
    rw [Expr.sql, String.toList_append]
    exact Prim.predicate rest
  | binary op left right ihl ihr =>
    obtain ⟨hleft, hright, hl, hr⟩ := h
    have hrl := (ihl hl (op.link ++ ((right.sql column).toList ++ rest))).mono hleft
    have hrr := (ihr hr rest).mono (Nat.le_pred_of_lt hright)
    rw [toList_sql_binary]
    cases op with
    | and => exact Joined.snoc hrl hrr
    | or => exact Joined.snoc hrl hrr
  | group inner ih =>
    have hinner := (ih h (')' :: rest)).mono inner.level_le
    have htext : ((Expr.group inner).sql column).toList ++ rest =
        '(' :: ((inner.sql column).toList ++ ')' :: rest) := by simp [Expr.sql]
    rw [htext]
    exact Prim.group hinner

theorem reads_unique (hc : isColumn column = true) {sql : String} {t u : Template}
    (ht : Reads column sql t) (hu : Reads column sql u) : t = u :=
  (Agree.orList (fun _ _ _ _ _ h h' _ _ => h.unique hc h') _ _ _ _ _ ht hu (by simp [Ends])
    (by simp [Ends])).1

end Sql
end Condition

open Condition

theorem Compiler.compile_cases (c : Compiler) (input : String) :
    (∃ t e, c.tree input = .ok t ∧ Derives input t ∧ Reading t e ∧ c.expression input = .ok e ∧
      c.compile input = .ok ⟨e.sql c.column, e.words⟩) ∨
    ∃ error, c.tree input = .error error ∧ c.compile input = .error error := by
  rw [c.compile_eq_map]
  obtain ⟨t, e, ht, hderives, -, hreading, he⟩ | ⟨error, ht, he⟩ := c.expression_cases input
  · exact .inl ⟨t, e, ht, hderives, hreading, he, by rw [he, ← e.render_eq]; rfl⟩
  · exact .inr ⟨error, ht, by rw [he]; rfl⟩

/-- A rendered condition can be read in one way, and with the parameters in the places of the
question marks that is the expression of the query. -/
theorem compile_reads_back (c : Compiler) (input : String) (fragment : Fragment)
    (h : c.compile input = .ok fragment) :
    ∃ e t, c.expression input = .ok e ∧ Sql.Reads c.column fragment.sql t ∧
      (∀ u, Sql.Reads c.column fragment.sql u → u = t) ∧ t.fill fragment.params = some (e, []) := by
  rw [c.compile_eq_map] at h
  obtain ⟨t, e, -, -, -, hreading, he⟩ | ⟨error, -, he⟩ := c.expression_cases input
  · obtain rfl : e.render c.column = fragment := by simpa [he, Except.map] using h
    rw [Expr.render_eq]
    have hreads := (Sql.reads_sql c.column hreading.legal.tiered []).mono e.level_le
    rw [List.append_nil] at hreads
    refine ⟨e, e.template, he, hreads, fun u hu => ?_, ?_⟩
    · exact Sql.reads_unique c.isColumn_column hu hreads
    · simpa using Template.fill_template e []
  · simp [he, Except.map] at h

theorem compile_reads_back_mixed : ∃ fragment,
    (default : Compiler).compile "a \"or\" and (b c)" = .ok fragment ∧
      ∃ e t, (default : Compiler).expression "a \"or\" and (b c)" = .ok e ∧
        Sql.Reads "column_name" fragment.sql t ∧
        (∀ u, Sql.Reads "column_name" fragment.sql u → u = t) ∧
        t.fill fragment.params = some (e, []) := by
  have hok : ((default : Compiler).compile "a \"or\" and (b c)").isOk = true := by decide +kernel
  obtain ⟨fragment, h⟩ := exists_eq_ok hok
  exact ⟨fragment, h, compile_reads_back _ _ _ h⟩

end SearchFilter
