/-! Labels below labels. A hierarchy can be listed line by line, each label with its level, and the levels
say again what is below what. -/

namespace SearchFilter

inductive Hierarchy (α : Type) where
  | node (label : α) (below : List (Hierarchy α))

namespace Hierarchy

variable {α : Type}

mutual

def listing (level : Nat) : Hierarchy α → List (Nat × α)
  | node label below => (level, label) :: listings (level + 1) below

def listings (level : Nat) : List (Hierarchy α) → List (Nat × α)
  | [] => []
  | h :: hs => h.listing level ++ listings level hs

end

def Closes (level : Nat) (rest : List (Nat × α)) : Prop :=
  ∀ line ∈ rest.head?, line.1 < level

theorem listings_cons (level : Nat) (label : α) (below hs : List (Hierarchy α)) :
    listings level (node label below :: hs) =
      (level, label) :: (listings (level + 1) below ++ listings level hs) := by
  rw [listings, listing, List.cons_append]

theorem listings_append (level : Nat) (hs hs' : List (Hierarchy α)) :
    listings level (hs ++ hs') = listings level hs ++ listings level hs' := by
  induction hs with
  | nil => rw [List.nil_append, listings, List.nil_append]
  | cons h hs ih => rw [List.cons_append, listings, ih, listings, List.append_assoc]

theorem closes_listings {level : Nat} {rest : List (Nat × α)} (hrest : Closes level rest)
    (hs : List (Hierarchy α)) : Closes (level + 1) (listings level hs ++ rest) := by
  cases hs with
  | nil =>
    rw [listings, List.nil_append]
    exact fun line hline => Nat.lt_succ_of_lt (hrest line hline)
  | cons h hs =>
    obtain ⟨label, below⟩ := h
    rw [listings_cons]
    rintro line ⟨⟩
    exact Nat.lt_succ_self level

theorem Closes.ne_listings {level : Nat} {rest rest' : List (Nat × α)} (hrest : Closes level rest)
    (h : Hierarchy α) (hs : List (Hierarchy α)) : rest ≠ listings level (h :: hs) ++ rest' := by
  obtain ⟨label, below⟩ := h
  rw [listings_cons]
  rintro rfl
  exact absurd (hrest _ rfl) (Nat.lt_irrefl level)

theorem listings_append_inj : ∀ {level : Nat} {hs hs' : List (Hierarchy α)} {rest rest' : List (Nat × α)},
    Closes level rest → Closes level rest' →
    listings level hs ++ rest = listings level hs' ++ rest' → hs = hs' ∧ rest = rest'
  | level, [], [], rest, rest', _, _, h => ⟨rfl, by simpa [listings] using h⟩
  | level, [], h' :: hs', rest, rest', hrest, _, h =>
    absurd (by simpa [listings] using h) (hrest.ne_listings h' hs')
  | level, h :: hs, [], rest, rest', _, hrest', heq =>
    absurd (by simpa [listings] using heq.symm) (hrest'.ne_listings h hs)
  | level, node label below :: hs, node label' below' :: hs', rest, rest', hrest, hrest', h => by
    rw [listings_cons, listings_cons, List.cons_append, List.cons_append, List.append_assoc,
      List.append_assoc] at h
    obtain ⟨hline, htail⟩ := List.cons.inj h
    -- What is below the first label ends where the level falls back to its own.
    obtain ⟨rfl, hafter⟩ :=
      listings_append_inj (closes_listings hrest hs) (closes_listings hrest' hs') htail
    obtain ⟨rfl, rfl⟩ := listings_append_inj hrest hrest' hafter
    obtain rfl : label = label' := (Prod.mk.inj hline).2
    exact ⟨rfl, rfl⟩

end Hierarchy
end SearchFilter
