import Mathlib.Data.List.Chain
import SearchFilter.Proofs.Paths

/-! Directories above a path. The parent of a path is the shortest beginning of its text that has all
components but the last, and the list of ancestors is the only one that goes from parent to parent until
no component is left. -/

namespace SearchFilter.Text

variable {separator : Char} {cs piece : List Char}

theorem not_mem_of_mem_splitAt (h : piece ∈ splitAt separator cs) : separator ∉ piece := by
  induction cs generalizing piece with
  | nil =>
    obtain rfl : piece = [] := by simpa [splitAt] using h
    simp
  | cons c cs ih =>
    obtain ⟨first, pieces, hsplit⟩ := List.exists_cons_of_ne_nil (@splitAt_ne_nil separator cs)
    have hfirst : separator ∉ first := ih (by simp [hsplit])
    have hpieces : ∀ p ∈ pieces, separator ∉ p := fun p hp => ih (by simp [hsplit, hp])
    rw [splitAt, hsplit] at h
    by_cases hc : c = separator
    · obtain rfl | rfl | h : piece = [] ∨ piece = first ∨ piece ∈ pieces := by simpa [hc] using h
      · simp
      · exact hfirst
      · exact hpieces piece h
    · obtain rfl | h : piece = c :: first ∨ piece ∈ pieces := by simpa [hc] using h
      · simpa [Ne.symm hc] using hfirst
      · exact hpieces piece h

theorem exists_last_piece (separator : Char) (cs : List Char) :
    ∃ base front last, cs = base ++ last ∧ separator ∉ last ∧
      ∀ piece, separator ∉ piece → splitAt separator (base ++ piece) = front ++ [piece] := by
  by_cases hmem : separator ∈ cs
  · obtain ⟨last, before, hcs, hlast⟩ := List.eq_append_cons_of_mem (List.mem_reverse.mpr hmem)
    have hsplit : cs = before.reverse ++ [separator] ++ last.reverse := by
      simpa using congrArg List.reverse hcs
    refine ⟨before.reverse ++ [separator], splitAt separator before.reverse, last.reverse, hsplit,
      by simpa using hlast, fun piece hpiece => ?_⟩
    rw [List.append_assoc, List.singleton_append, splitAt_append, splitAt_of_not_mem hpiece]
  · exact ⟨[], [], cs, by simp, hmem, fun piece hpiece => by simp [splitAt_of_not_mem hpiece]⟩

end SearchFilter.Text

namespace SearchFilter.Files.Path

open Text

variable {p q r : Path} {name piece : String} {names before : List String} {c : Char}

section Pieces

theorem slash_not_mem_piece (h : piece ∈ p.pieces) : '/' ∉ piece.toList := by
  obtain ⟨cs, hcs, rfl⟩ := List.mem_map.mp h
  simpa using not_mem_of_mem_splitAt hcs

theorem intercalate_append_cons (hnames : names ≠ []) :
    "/".intercalate (names ++ [name]) = "/".intercalate names ++ "/" ++ name := by
  rw [String.intercalate_append_of_ne_nil hnames (by simp), String.intercalate_singleton]

theorem pieces_intercalate (hnames : names ≠ []) (hslash : ∀ n ∈ names, '/' ∉ n.toList) :
    pieces ⟨"/".intercalate names⟩ = names := by
  induction names using List.reverseRecOn with
  | nil => exact absurd rfl hnames
  | append_singleton names name ih =>
    have hname : '/' ∉ name.toList := hslash name (by simp)
    by_cases hempty : names = []
    · simp [hempty, pieces, splitAt_of_not_mem hname]
    · have hfront := ih hempty fun n hn => hslash n (by simp [hn])
      rw [intercalate_append_cons hempty, pieces_append hname, hfront]

theorem intercalate_splitAt (cs : List Char) :
    ("/".intercalate ((splitAt '/' cs).map String.ofList)).toList = cs := by
  induction cs with
  | nil => rfl
  | cons c cs ih =>
    obtain ⟨first, pieces, hsplit⟩ := List.exists_cons_of_ne_nil (@splitAt_ne_nil '/' cs)
    rw [hsplit] at ih
    rw [splitAt, hsplit]
    by_cases hc : c = '/'
    · simpa [hc, String.intercalate_cons_cons] using ih
    · cases pieces with
      | nil => simpa [hc] using ih
      | cons next pieces => simpa [hc, String.intercalate_cons_cons] using ih

theorem intercalate_pieces (p : Path) : "/".intercalate p.pieces = p.text := by
  rw [← String.toList_inj]
  exact intercalate_splitAt p.text.toList

end Pieces

section Parents

theorem componentsOf_trimmed : componentsOf (trimmed names) = componentsOf names := by
  induction names with
  | nil => rfl
  | cons name names ih =>
    cases hname : isComponent name names with
    | true => simp [trimmed, hname]
    | false => simp [trimmed, componentsOf, hname, ih]

theorem parentPieces_trimmed : parentPieces (trimmed names) = parentPieces names := by
  induction names with
  | nil => rfl
  | cons name names ih =>
    cases hname : isComponent name names with
    | true => simp [trimmed, hname]
    | false => simp [trimmed, parentPieces, hname, ih]

theorem trimmed_cases (names : List String) :
    trimmed names = [] ∨
      ∃ name before, trimmed names = name :: before ∧ isComponent name before = true := by
  induction names with
  | nil => exact .inl rfl
  | cons name names ih =>
    cases hname : isComponent name names with
    | true => exact .inr ⟨name, names, by simp [trimmed, hname], hname⟩
    | false => simpa [trimmed, hname] using ih

theorem parentPieces_cases (names : List String) :
    componentsOf names = [] ∧ parentPieces names = [] ∨
      ∃ last lower upper, componentsOf names = last :: componentsOf (trimmed upper) ∧
        parentPieces names = trimmed upper :: parentPieces (trimmed upper) ∧
        names = lower ++ trimmed upper ∧ lower ≠ [] := by
  induction names with
  | nil => exact .inl ⟨rfl, rfl⟩
  | cons name names ih =>
    cases hname : isComponent name names with
    | true =>
      obtain ⟨lower, hlower⟩ := @trimmed_suffix names
      refine .inr ⟨name, name :: lower, names, ?_, ?_, ?_, by simp⟩
      · rw [componentsOf_cons hname, componentsOf_trimmed]
      · rw [parentPieces, if_pos hname, parentPieces_trimmed]
      · rw [List.cons_append, hlower]
    | false =>
      rw [componentsOf_cons_of_not hname, parentPieces, if_neg (by simp [hname])]
      obtain hnone | ⟨last, lower, upper, hcomponents, hparents, hnames, -⟩ := ih
      · exact .inl hnone
      · refine .inr ⟨last, name :: lower, upper, hcomponents, hparents, ?_, by simp⟩
        rw [hnames, List.cons_append]

end Parents

section Letters

def letters (names : List String) : Nat :=
  names.foldr (fun name n => name.toList.length + n) 0

def componentsIn (cs : List Char) : List String :=
  componentsOf (pieces ⟨String.ofList cs⟩).reverse

theorem componentsIn_text (p : Path) : componentsIn p.text.toList = p.components.reverse := by
  simp [componentsIn, components]

theorem isComponent_concat {last : List Char} (h : isComponent (String.ofList last) before = true) :
    isComponent (String.ofList (last ++ [c])) before = true := by
  have hlast : last ≠ [] := by
    rintro rfl
    exact absurd h (by simp [isComponent_empty])
  have hlong : 2 ≤ (String.ofList (last ++ [c])).toList.length := by
    simpa using Nat.succ_le_of_lt (List.length_pos_iff.mpr hlast)
  refine isComponent_of_not_isIdle (Bool.eq_false_iff.mpr fun hidle => ?_) before
  obtain hempty | hdot : String.ofList (last ++ [c]) = "" ∨ String.ofList (last ++ [c]) = "." := by
    simpa [isIdle] using hidle
  · exact absurd (hempty ▸ hlong) (by decide)
  · exact absurd (hdot ▸ hlong) (by decide)

theorem pieces_slash (cs : List Char) :
    (pieces ⟨String.ofList (cs ++ ['/'])⟩).reverse = "" :: (pieces ⟨String.ofList cs⟩).reverse := by
  have hempty := @pieces_append "" (String.ofList cs) (by simp)
  have htext : String.ofList (cs ++ ['/']) = String.ofList cs ++ "/" ++ "" := by
    rw [String.ofList_append]
    simp
  rw [htext, hempty]
  simp

theorem componentsIn_slash (cs : List Char) : componentsIn (cs ++ ['/']) = componentsIn cs := by
  rw [componentsIn, pieces_slash, componentsOf_cons_of_not (isComponent_empty _), componentsIn]

theorem pieces_concat (hc : c ≠ '/') (cs : List Char) :
    ∃ last before, (pieces ⟨String.ofList cs⟩).reverse = String.ofList last :: before ∧
      (pieces ⟨String.ofList (cs ++ [c])⟩).reverse = String.ofList (last ++ [c]) :: before := by
  obtain ⟨base, front, last, rfl, hlast, hbase⟩ := exists_last_piece '/' cs
  have hmore : '/' ∉ last ++ [c] := by simpa [hlast] using Ne.symm hc
  refine ⟨last, (front.map String.ofList).reverse, ?_, ?_⟩
  · simp [pieces, hbase last hlast]
  · simp [pieces, hbase _ hmore]

theorem letters_concat (cs : List Char) (c : Char) :
    letters (componentsIn cs) ≤ letters (componentsIn (cs ++ [c])) := by
  by_cases hc : c = '/'
  · rw [hc, componentsIn_slash]
  obtain ⟨last, before, hshort, hlong⟩ := pieces_concat hc cs
  rw [componentsIn, componentsIn, hshort, hlong]
  cases hlast : isComponent (String.ofList last) before with
  | true =>
    rw [componentsOf_cons hlast, componentsOf_cons (isComponent_concat hlast)]
    simp [letters]
  | false =>
    rw [componentsOf_cons_of_not hlast, componentsOf]
    split
    · simp [letters]
    · exact le_rfl

theorem letters_le_of_isPrefix {short long : List Char} (h : short <+: long) :
    letters (componentsIn short) ≤ letters (componentsIn long) := by
  obtain ⟨more, rfl⟩ := h
  induction more using List.reverseRecOn with
  | nil => simp
  | append_singleton more c ih =>
    rw [← List.append_assoc]
    exact ih.trans (letters_concat _ c)

theorem letters_lt_of_isPrefix {short long : List Char} (h : short <+: long) (hne : short ≠ long)
    (hlong : (pieces ⟨String.ofList long⟩).reverse = name :: before)
    (hname : isComponent name before = true) :
    letters (componentsIn short) < letters (componentsIn long) := by
  obtain ⟨more, rfl⟩ := h
  obtain rfl | ⟨more, c, rfl⟩ := List.eq_nil_or_concat' more
  · simp at hne
  rw [← List.append_assoc] at hlong ⊢
  have hshort : letters (componentsIn short) ≤ letters (componentsIn (short ++ more)) :=
    letters_le_of_isPrefix (List.prefix_append _ _)
  refine hshort.trans_lt ?_
  -- A slash at the end would leave an empty last piece, which is no component.
  by_cases hc : c = '/'
  · rw [hc, pieces_slash] at hlong
    obtain ⟨rfl, -⟩ := List.cons.inj hlong
    exact absurd hname (by simp [isComponent_empty])
  · obtain ⟨last, upper, hbefore, hafter⟩ := pieces_concat hc (short ++ more)
    obtain ⟨rfl, rfl⟩ := List.cons.inj (hafter.symm.trans hlong)
    rw [componentsIn, hbefore, componentsIn, hafter, componentsOf_cons hname, componentsOf]
    split
    · simp [letters]
    · simp [letters]

end Letters

section Ancestors

/-- `q` is the directory above `p`: the shortest beginning of its text with all components but the last. -/
structure IsParent (q p : Path) : Prop where
  isPrefix : q.text.toList <+: p.text.toList
  isAbsolute_eq : q.isAbsolute = p.isAbsolute
  components_eq : ∃ last, p.components = q.components ++ [last]
  shortest : ∀ r : Path, r.text.toList <+: p.text.toList → r.isAbsolute = p.isAbsolute →
    r.components = q.components → q.text.toList.length ≤ r.text.toList.length

/-- The directories from `start` up, closest first: every one is followed by its parent, and the last has
no component left to remove. -/
structure Climb (start : Path) (directories : List Path) : Prop where
  head : directories.head? = some start
  parents : directories.IsChain fun p q => q.IsParent p
  last : ∀ p ∈ directories.getLast?, p.components = []

theorem IsParent.unique (hq : q.IsParent p) (hr : r.IsParent p) : q = r := by
  obtain ⟨last, hlast⟩ := hq.components_eq
  obtain ⟨last', hlast'⟩ := hr.components_eq
  have hcomponents : q.components = r.components := (List.append_inj' (hlast.symm.trans hlast') rfl).1
  have hle := hq.shortest r hr.isPrefix hr.isAbsolute_eq hcomponents.symm
  have hge := hr.shortest q hq.isPrefix hq.isAbsolute_eq hcomponents
  have htext := (List.prefix_of_prefix_length_le hq.isPrefix hr.isPrefix hle).eq_of_length_le hge
  cases q
  cases r
  exact congrArg Path.mk (String.toList_inj.mp htext)

theorem isAbsolute_of_isPrefix (h : q.text.toList <+: p.text.toList) (hq : q.text.toList ≠ []) :
    q.isAbsolute = p.isAbsolute := by
  obtain ⟨more, hmore⟩ := h
  rw [isAbsolute, isAbsolute, ← hmore, List.head?_append_of_ne_nil _ hq]

theorem text_ofReversed (absolute : Bool) (hnames : names ≠ []) :
    (ofReversed absolute names).text = "/".intercalate names.reverse := by
  simp [ofReversed, hnames]

theorem pieces_ofReversed (absolute : Bool) (hnames : names ≠ [])
    (hslash : ∀ n ∈ names, '/' ∉ n.toList) : (ofReversed absolute names).pieces.reverse = names := by
  have hpieces : pieces ⟨"/".intercalate names.reverse⟩ = names.reverse :=
    pieces_intercalate (by simpa using hnames) fun n hn => hslash n (List.mem_reverse.mp hn)
  rw [pieces, text_ofReversed absolute hnames, ← pieces, hpieces, List.reverse_reverse]

theorem isParent_top {last : String} (hp : p.components = [last]) :
    (ofReversed p.isAbsolute []).IsParent p := by
  cases habsolute : p.isAbsolute with
  | true =>
    have hhead : p.text.toList.head? = some '/' := by simpa [isAbsolute] using habsolute
    obtain ⟨rest, hrest⟩ := List.head?_eq_some_iff.mp hhead
    refine ⟨⟨rest, hrest.symm⟩, habsolute.symm, ⟨last, hp⟩, fun r _ hr _ => ?_⟩
    have hhead : r.text.toList.head? = some '/' := by
      simpa [isAbsolute] using hr.trans habsolute
    obtain ⟨rest', hrest'⟩ := List.head?_eq_some_iff.mp hhead
    rw [hrest']
    exact Nat.succ_le_succ (Nat.zero_le _)
  | false => exact ⟨List.nil_prefix, habsolute.symm, ⟨last, hp⟩, fun r _ _ _ => Nat.zero_le _⟩

theorem ancestors_top (absolute : Bool) :
    (ofReversed absolute []).ancestors = [ofReversed absolute []] := by
  cases absolute <;> rfl

theorem isParent_ofReversed {last : String} {lower : List String}
    (hpieces : p.pieces.reverse = lower ++ name :: before) (hlower : lower ≠ [])
    (hname : isComponent name before = true)
    (hp : p.components.reverse = last :: componentsOf (name :: before)) :
    (ofReversed p.isAbsolute (name :: before)).IsParent p := by
  have hslash : ∀ n ∈ name :: before, '/' ∉ n.toList := fun n hn =>
    slash_not_mem_piece (List.mem_reverse.mp (hpieces ▸ List.mem_append_right lower hn))
  generalize hq : ofReversed p.isAbsolute (name :: before) = q
  have htext : q.text = "/".intercalate (name :: before).reverse := by
    rw [← hq, text_ofReversed _ (by simp)]
  have hback : q.pieces.reverse = name :: before := by
    rw [← hq, pieces_ofReversed _ (by simp) hslash]
  have hcomponents : q.components.reverse = componentsOf (name :: before) := by
    rw [components, List.reverse_reverse, hback]
  have hbegins : q.text.toList <+: p.text.toList := by
    have hsplit : p.pieces = (name :: before).reverse ++ lower.reverse := by
      simpa using congrArg List.reverse hpieces
    rw [← intercalate_pieces p, hsplit,
      String.intercalate_append_of_ne_nil (by simp) (by simpa using hlower), ← htext]
    simp only [String.toList_append, List.append_assoc]
    exact List.prefix_append _ _
  have hne : q.text.toList ≠ [] := by
    obtain ⟨front, hfront⟩ := @intercalate_concat name before.reverse
    have hlast : name ≠ "" := by
      rintro rfl
      exact absurd hname (by simp [isComponent_empty])
    simpa [htext, hfront] using fun _ => hlast
  refine ⟨hbegins, isAbsolute_of_isPrefix hbegins hne, ⟨last, ?_⟩, fun r hr _ hsame => ?_⟩
  · have hall : p.components.reverse = last :: q.components.reverse := by rw [hp, hcomponents]
    simpa using congrArg List.reverse hall
  · by_contra hshorter
    have hlt := Nat.lt_of_not_le hshorter
    have hrq := List.prefix_of_prefix_length_le hr hbegins hlt.le
    have hless := letters_lt_of_isPrefix hrq (fun h => hlt.ne (congrArg List.length h))
      (by simpa using hback) hname
    rw [componentsIn_text, componentsIn_text, hsame] at hless
    exact hless.false

theorem ancestors_cases (p : Path) : p.components = [] ∧ p.ancestors = [p] ∨
    ∃ q : Path, q.IsParent p ∧ p.ancestors = p :: q.ancestors := by
  obtain ⟨hnone, hparents⟩ | ⟨last, lower, upper, hsome, hparents, hpieces, hlower⟩ :=
    parentPieces_cases p.pieces.reverse
  · exact .inl ⟨by simp [components, hnone], by simp [ancestors, hparents]⟩
  refine .inr ⟨ofReversed p.isAbsolute (trimmed upper), ?_⟩
  obtain hupper | ⟨name, before, hupper, hname⟩ := trimmed_cases upper
  · rw [hupper] at hsome hparents
    have hp : p.components = [last] := by simp [components, hsome, componentsOf]
    refine ⟨hupper ▸ isParent_top hp, ?_⟩
    rw [hupper, ancestors_top, ancestors, hparents]
    rfl
  · rw [hupper] at hsome hparents hpieces ⊢
    have hp : p.components.reverse = last :: componentsOf (name :: before) := by
      rw [components, List.reverse_reverse, hsome]
    have hparent := isParent_ofReversed hpieces hlower hname hp
    have hslash : ∀ n ∈ name :: before, '/' ∉ n.toList := fun n hn =>
      slash_not_mem_piece (List.mem_reverse.mp (hpieces ▸ List.mem_append_right lower hn))
    have hback := pieces_ofReversed p.isAbsolute (by simp) hslash
    refine ⟨hparent, ?_⟩
    rw [ancestors, hparents, List.map_cons, ancestors, hback, hparent.isAbsolute_eq]

theorem IsParent.length_lt (h : q.IsParent p) : q.components.length < p.components.length := by
  obtain ⟨last, hlast⟩ := h.components_eq
  simp [hlast]

theorem climb_ancestors (p : Path) : Climb p p.ancestors := by
  induction hlength : p.components.length using Nat.strong_induction_on generalizing p with
  | _ n ih =>
    obtain ⟨hnone, hlist⟩ | ⟨q, hq, hlist⟩ := ancestors_cases p
    · exact hlist ▸ ⟨rfl, .singleton p, by simpa using hnone⟩
    · have hclimb := ih _ (hlength ▸ hq.length_lt) q rfl
      rw [hlist]
      refine ⟨rfl, ?_, ?_⟩
      · exact List.IsChain.cons_cons hq hclimb.parents
      · exact hclimb.last

example : (ancestors ⟨"./a/../b//"⟩).map text = ["./a/../b//", "./a/..", "./a", ".", ""] := by
  decide +kernel

theorem ancestors_pairwise (p : Path) :
    p.ancestors.Pairwise fun q r => r.components.length < q.components.length := by
  have hchain : p.ancestors.IsChain fun q r => r.components.length < q.components.length :=
    (climb_ancestors p).parents.imp fun _ _ h => h.length_lt
  have : IsTrans Path fun q r => r.components.length < q.components.length :=
    ⟨fun _ _ _ hab hbc => hbc.trans hab⟩
  exact List.isChain_iff_pairwise.mp hchain

end Ancestors

end SearchFilter.Files.Path
