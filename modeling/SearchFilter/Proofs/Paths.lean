import Mathlib.Data.List.Basic
import SearchFilter.Settings.Config

/-! Paths and their components. Joining a name adds a component, and every path that is derived from
another one is made of the characters of that path and slashes. -/

namespace SearchFilter.Text

variable {separator c : Char} {cs ds piece : List Char}

theorem splitAt_ne_nil : splitAt separator cs ≠ [] := by
  cases cs with
  | nil => simp [splitAt]
  | cons c cs =>
    rw [splitAt]
    split
    · simp
    · split <;> simp

theorem splitAt_append :
    splitAt separator (cs ++ separator :: ds) = splitAt separator cs ++ splitAt separator ds := by
  induction cs with
  | nil =>
    obtain ⟨piece, pieces, h⟩ := List.exists_cons_of_ne_nil (@splitAt_ne_nil separator ds)
    simp [splitAt, h]
  | cons c cs ih =>
    obtain ⟨piece, pieces, h⟩ := List.exists_cons_of_ne_nil (@splitAt_ne_nil separator cs)
    rw [List.cons_append, splitAt, ih, splitAt, h]
    by_cases hc : c = separator <;> simp [hc]

theorem splitAt_of_not_mem (h : separator ∉ cs) : splitAt separator cs = [cs] := by
  induction cs with
  | nil => rfl
  | cons c cs ih =>
    rw [List.mem_cons, not_or] at h
    simp [splitAt, ih h.2, Ne.symm h.1]

theorem mem_of_mem_splitAt (hpiece : piece ∈ splitAt separator cs) (hc : c ∈ piece) : c ∈ cs := by
  induction cs generalizing piece with
  | nil =>
    obtain rfl : piece = [] := by simpa [splitAt] using hpiece
    cases hc
  | cons d cs ih =>
    obtain ⟨first, pieces, h⟩ := List.exists_cons_of_ne_nil (@splitAt_ne_nil separator cs)
    have hstep : splitAt separator (d :: cs) =
        if d = separator then [] :: first :: pieces else (d :: first) :: pieces := by
      rw [splitAt, h]
    rw [hstep] at hpiece
    rw [h] at ih
    split at hpiece
    · obtain rfl | hpiece := List.mem_cons.mp hpiece
      · cases hc
      · exact List.mem_cons_of_mem d (ih hpiece hc)
    · obtain rfl | hpiece := List.mem_cons.mp hpiece
      · obtain rfl | hc := List.mem_cons.mp hc
        · exact List.mem_cons_self
        · exact List.mem_cons_of_mem d (ih List.mem_cons_self hc)
      · exact List.mem_cons_of_mem d (ih (List.mem_cons_of_mem _ hpiece) hc)

end SearchFilter.Text

namespace SearchFilter.Files.Path

open Text

variable {p q base : Path} {name piece : String} {names : List String} {c : Char}

section Components

theorem pieces_append {before : String} (hname : '/' ∉ name.toList) :
    pieces ⟨before ++ "/" ++ name⟩ = pieces ⟨before⟩ ++ [name] := by
  have htext : (before ++ "/" ++ name).toList = before.toList ++ '/' :: name.toList := by simp
  rw [pieces, htext, splitAt_append, splitAt_of_not_mem hname, pieces, List.map_append]
  simp

theorem eq_append_slash {text : String} (h : text.toList.getLast? = some '/') :
    ∃ before : String, text = before ++ "/" := by
  obtain ⟨before, htext⟩ := List.getLast?_eq_some_iff.mp h
  refine ⟨String.ofList before, String.toList_inj.mp ?_⟩
  simp [htext]

theorem componentsOf_cons {piece : String} {before : List String} (h : isComponent piece before = true) :
    componentsOf (piece :: before) = piece :: componentsOf before := by
  rw [componentsOf, if_pos h]

theorem componentsOf_cons_of_not {piece : String} {before : List String}
    (h : isComponent piece before = false) : componentsOf (piece :: before) = componentsOf before := by
  rw [componentsOf, if_neg (by simp [h])]

theorem isComponent_of_not_isIdle (h : isIdle name = false) (before : List String) :
    isComponent name before = true := by
  simp [isComponent, h]

theorem isComponent_empty (before : List String) : isComponent "" before = false := by
  simp [isComponent, isIdle]

theorem components_join (hname : '/' ∉ name.toList) (hidle : isIdle name = false) :
    (p.join name).components = p.components ++ [name] := by
  have hlast : ∀ before, componentsOf (name :: before) = name :: componentsOf before :=
    fun before => componentsOf_cons (isComponent_of_not_isIdle hidle before)
  obtain ⟨text⟩ := p
  unfold join
  split
  · next hempty =>
    obtain rfl : text = "" := by simpa using hempty
    have hpieces : pieces ⟨name⟩ = [name] := by simp [pieces, splitAt_of_not_mem hname]
    rw [components, hpieces, List.reverse_singleton, hlast]
    rfl
  split
  · next hslash =>
    -- A slash at the end leaves an empty piece, which is no component.
    obtain ⟨before, rfl⟩ := eq_append_slash hslash
    have hempty : pieces ⟨before ++ "/"⟩ = pieces ⟨before⟩ ++ [""] := by
      simpa using @pieces_append "" before (by simp)
    rw [components, pieces_append hname, List.reverse_append, List.reverse_singleton,
      List.singleton_append, hlast, components, hempty, List.reverse_append, List.reverse_singleton,
      List.singleton_append, componentsOf_cons_of_not (isComponent_empty _), List.reverse_cons]
  · rw [components, pieces_append hname, List.reverse_append, List.reverse_singleton,
      List.singleton_append, hlast, components, List.reverse_cons]

theorem text_join : ∃ before, (p.join name).text = before ++ name := by
  unfold join
  split
  · exact ⟨"", by simp⟩
  split
  · exact ⟨p.text, rfl⟩
  · exact ⟨p.text ++ "/", rfl⟩

theorem intercalate_concat : ∃ before, "/".intercalate (names ++ [name]) = before ++ name := by
  by_cases hnames : names = []
  · exact ⟨"", by simp [hnames]⟩
  · refine ⟨"/".intercalate names ++ "/", ?_⟩
    rw [String.intercalate_append_of_ne_nil hnames (by simp), String.intercalate_singleton]

theorem below?_text (h : base.below? p = some q) :
    q.text = "/".intercalate (p.components.drop base.components.length) := by
  unfold below? at h
  split at h
  · exact (congrArg text (Option.some.inj h)).symm
  · cases h

theorem text_below?_join (hname : '/' ∉ name.toList) (hidle : isIdle name = false)
    (h : base.below? (p.join name) = some q) :
    q.text = "" ∨ ∃ before, q.text = before ++ name := by
  rw [below?_text h, components_join hname hidle]
  by_cases hlength : base.components.length ≤ p.components.length
  · rw [List.drop_append_of_le_length hlength]
    exact .inr intercalate_concat
  · rw [List.drop_eq_nil_of_le (by simp; omega)]
    exact .inl rfl

end Components

section Characters

theorem mem_intercalate (h : c ∈ ("/".intercalate names).toList) :
    c = '/' ∨ ∃ name ∈ names, c ∈ name.toList := by
  induction names with
  | nil => simp at h
  | cons name names ih =>
    cases names with
    | nil => exact .inr ⟨name, by simpa using h⟩
    | cons next names =>
      rw [String.intercalate_cons_cons] at h
      simp only [String.toList_append, List.mem_append] at h
      obtain (h | h) | h := h
      · exact .inr ⟨name, List.mem_cons_self, h⟩
      · exact .inl (by simpa using h)
      · exact (ih h).imp_right fun ⟨name', hname', hc⟩ => ⟨name', List.mem_cons_of_mem _ hname', hc⟩

theorem mem_of_mem_pieces (hpiece : piece ∈ p.pieces) (hc : c ∈ piece.toList) :
    c ∈ p.text.toList := by
  obtain ⟨cs, hcs, rfl⟩ := List.mem_map.mp hpiece
  exact mem_of_mem_splitAt hcs (by simpa using hc)

theorem componentsOf_sublist : (componentsOf names).Sublist names := by
  induction names with
  | nil => exact .slnil
  | cons name names ih =>
    rw [componentsOf]
    split
    · exact ih.cons_cons name
    · exact ih.cons name

theorem trimmed_suffix : trimmed names <:+ names := by
  induction names with
  | nil => exact List.suffix_rfl
  | cons name names ih =>
    rw [trimmed]
    split
    · exact List.suffix_rfl
    · exact ih.trans (List.suffix_cons name names)

theorem mem_of_mem_parentPieces {above : List String} (habove : above ∈ parentPieces names)
    (hpiece : piece ∈ above) : piece ∈ names := by
  induction names with
  | nil => cases habove
  | cons name names ih =>
    rw [parentPieces] at habove
    split at habove
    · obtain rfl | habove := List.mem_cons.mp habove
      · exact List.mem_cons_of_mem name (trimmed_suffix.mem hpiece)
      · exact List.mem_cons_of_mem name (ih habove)
    · exact List.mem_cons_of_mem name (ih habove)

theorem mem_ofReversed {absolute : Bool} (h : c ∈ (ofReversed absolute names).text.toList) :
    c = '/' ∨ ∃ name ∈ names, c ∈ name.toList := by
  unfold ofReversed at h
  split at h
  · exact .inl (by simpa using h)
  · simpa using mem_intercalate h

theorem mem_ancestors_text (hq : q ∈ p.ancestors) (hc : c ∈ q.text.toList) :
    c = '/' ∨ c ∈ p.text.toList := by
  obtain rfl | hq := List.mem_cons.mp hq
  · exact .inr hc
  · obtain ⟨above, habove, rfl⟩ := List.mem_map.mp hq
    refine (mem_ofReversed hc).imp_right fun ⟨piece, hpiece, hc⟩ => ?_
    exact mem_of_mem_pieces (List.mem_reverse.mp (mem_of_mem_parentPieces habove hpiece)) hc

theorem mem_join_text (hc : c ∈ (p.join name).text.toList) :
    c = '/' ∨ c ∈ p.text.toList ∨ c ∈ name.toList := by
  unfold join at hc
  split at hc
  · exact .inr (.inr hc)
  split at hc
  · exact .inr (by simpa using hc)
  · simp only [String.toList_append, List.mem_append] at hc
    obtain (hc | hc) | hc := hc
    · exact .inr (.inl hc)
    · exact .inl (by simpa using hc)
    · exact .inr (.inr hc)

theorem mem_below?_text (h : base.below? p = some q) (hc : c ∈ q.text.toList) :
    c = '/' ∨ c ∈ p.text.toList := by
  rw [below?_text h] at hc
  refine (mem_intercalate hc).imp_right fun ⟨name, hname, hc⟩ => ?_
  have hname := componentsOf_sublist.mem (List.mem_reverse.mp (List.mem_of_mem_drop hname))
  exact mem_of_mem_pieces (List.mem_reverse.mp hname) hc

end Characters

end SearchFilter.Files.Path
