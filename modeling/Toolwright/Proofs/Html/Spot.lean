import Toolwright.Html.Spot

/-!
Where elements stand. The elements that a list of nodes holds are closed under children, and each
of them is a member of the list or a child of another one; so the descendants of an element are
those that have it among their ancestors.
-/

namespace Toolwright.Html

variable {inside : Bool} {above : Above} {before nodes : List Node}

theorem above_of_mem_forward {s : Spot} (h : s ∈ Spot.forward above before nodes) :
    s.above = above := by
  induction nodes generalizing before with
  | nil => cases h
  | cons node rest ih =>
    cases node with
    | text _ => exact ih h
    | contents _ => exact ih h
    | element e children =>
      rcases List.mem_cons.1 h with rfl | h
      · rfl
      · exact ih h

theorem above_of_mem_backward {s : Spot} {after : List Node}
    (h : s ∈ Spot.backward above after nodes) : s.above = above := by
  induction nodes generalizing after with
  | nil => cases h
  | cons node rest ih =>
    cases node with
    | text _ => exact ih h
    | contents _ => exact ih h
    | element e children =>
      rcases List.mem_cons.1 h with rfl | h
      · rfl
      · exact ih h

theorem above_of_mem_childElements {p s : Spot} (h : s ∈ p.childElements) :
    s.above = .element p := above_of_mem_forward h

theorem above_of_mem_earlier {s t : Spot} (h : t ∈ s.earlier) : t.above = s.above :=
  above_of_mem_backward h

theorem forward_subset_spotsOf :
    Spot.forward above before nodes ⊆ spotsOf inside above before nodes := by
  induction nodes generalizing before with
  | nil => exact List.Subset.refl _
  | cons node rest ih =>
    intro s hs
    rw [spotsOf]
    cases node with
    | text _ => exact List.mem_append_right _ (ih hs)
    | contents _ => exact List.mem_append_right _ (ih hs)
    | element e children =>
      rcases List.mem_cons.1 hs with rfl | hs
      · exact List.mem_append_left _ (List.mem_cons_self ..)
      · exact List.mem_append_right _ (ih hs)

theorem earlier_of_forward {pre post : List Spot} {s : Spot}
    (h : Spot.forward above before nodes = pre ++ s :: post) :
    s.earlier = pre.reverse ++ Spot.backward above nodes before := by
  induction nodes generalizing before pre with
  | nil => cases pre <;> cases h
  | cons node rest ih =>
    cases node with
    | text content => exact ih h
    | contents held => exact ih h
    | element e children =>
      cases pre with
      | nil =>
        cases h
        rfl
      | cons t more =>
        rw [Spot.forward, List.cons_append] at h
        obtain ⟨rfl, behind⟩ := List.cons.inj h
        rw [ih behind, List.reverse_cons, List.append_assoc]
        rfl

mutual

theorem childElements_subset_node_spots {p : Spot} : ∀ (node : Node) (above : Above)
    (before after : List Node), p ∈ node.spots inside above before after →
      p.childElements ⊆ node.spots inside above before after
  | .text _, _, _, _, h => by cases h
  | .contents nodes, above, before, after, h => by
    rw [Node.spots] at h ⊢
    split at h
    · next yes =>
      rw [if_pos yes]
      exact childElements_subset_spotsOf nodes _ _ h
    · cases h
  | .element e children, above, before, after, h => by
    rw [Node.spots] at h ⊢
    rcases List.mem_cons.1 h with rfl | h
    · exact List.subset_cons_of_subset _ forward_subset_spotsOf
    · exact List.subset_cons_of_subset _ (childElements_subset_spotsOf children _ _ h)

theorem childElements_subset_spotsOf {p : Spot} : ∀ (nodes : List Node) (above : Above)
    (before : List Node), p ∈ spotsOf inside above before nodes →
      p.childElements ⊆ spotsOf inside above before nodes
  | [], _, _, h => by cases h
  | node :: rest, above, before, h => by
    rw [spotsOf] at h ⊢
    rcases List.mem_append.1 h with h | h
    · exact List.subset_append_of_subset_left _
        (childElements_subset_node_spots node above before rest h)
    · exact List.subset_append_of_subset_right _
        (childElements_subset_spotsOf rest above (node :: before) h)

end

mutual

theorem parent_of_mem_node_spots {s : Spot} : ∀ (node : Node) (above : Above)
    (before after : List Node), s ∈ node.spots inside above before after →
      s ∈ Spot.forward above before (node :: after) ∨ s.above = .contents ∨
        ∃ p ∈ node.spots inside above before after, s ∈ p.childElements
  | .text _, _, _, _, h => by cases h
  | .contents nodes, above, before, after, h => by
    rw [Node.spots] at h ⊢
    split at h
    · next yes =>
      rw [if_pos yes]
      rcases parent_of_mem_spotsOf nodes _ _ h with top | top | deeper
      · exact .inr (.inl (above_of_mem_forward top))
      · exact .inr (.inl top)
      · exact .inr (.inr deeper)
    · cases h
  | .element e children, above, before, after, h => by
    rw [Node.spots] at h ⊢
    rcases List.mem_cons.1 h with rfl | h
    · exact .inl (List.mem_cons_self ..)
    · rcases parent_of_mem_spotsOf children _ _ h with child | top | ⟨p, hp, child⟩
      · exact .inr (.inr ⟨_, List.mem_cons_self .., child⟩)
      · exact .inr (.inl top)
      · exact .inr (.inr ⟨p, List.mem_cons_of_mem _ hp, child⟩)

theorem parent_of_mem_spotsOf {s : Spot} : ∀ (nodes : List Node) (above : Above)
    (before : List Node), s ∈ spotsOf inside above before nodes →
      s ∈ Spot.forward above before nodes ∨ s.above = .contents ∨
        ∃ p ∈ spotsOf inside above before nodes, s ∈ p.childElements
  | [], _, _, h => by cases h
  | node :: rest, above, before, h => by
    rw [spotsOf] at h ⊢
    rcases List.mem_append.1 h with h | h
    · rcases parent_of_mem_node_spots node above before rest h with top | top | ⟨p, hp, child⟩
      · exact .inl top
      · exact .inr (.inl top)
      · exact .inr (.inr ⟨p, List.mem_append_left _ hp, child⟩)
    · rcases parent_of_mem_spotsOf rest above (node :: before) h with top | top | ⟨p, hp, child⟩
      · refine .inl ?_
        cases node with
        | text _ => exact top
        | contents _ => exact top
        | element e children => exact List.mem_cons_of_mem _ top
      · exact .inr (.inl top)
      · exact .inr (.inr ⟨p, List.mem_append_right _ hp, child⟩)

end

mutual

theorem forall_mem_node_spots {T : Spot → Prop} (closed : ∀ p, T p → ∀ s ∈ p.childElements, T s) :
    ∀ (node : Node) (above : Above) (before after : List Node),
      (∀ s ∈ Spot.forward above before (node :: after), T s) →
      ∀ s ∈ node.spots false above before after, T s
  | .text _, _, _, _, _, _, h => by cases h
  | .contents _, _, _, _, _, _, h => by cases h
  | .element e children, above, before, after, top, s, h => by
    have here : T (.mk e children before after above) := top _ (List.mem_cons_self ..)
    rw [Node.spots] at h
    rcases List.mem_cons.1 h with rfl | h
    · exact here
    · exact forall_mem_spotsOf closed children _ _ (closed _ here) s h

theorem forall_mem_spotsOf {T : Spot → Prop} (closed : ∀ p, T p → ∀ s ∈ p.childElements, T s) :
    ∀ (nodes : List Node) (above : Above) (before : List Node),
      (∀ s ∈ Spot.forward above before nodes, T s) → ∀ s ∈ spotsOf false above before nodes, T s
  | [], _, _, _, _, h => by cases h
  | node :: rest, above, before, top, s, h => by
    rw [spotsOf] at h
    rcases List.mem_append.1 h with h | h
    · exact forall_mem_node_spots closed node above before rest top s h
    · refine forall_mem_spotsOf closed rest above (node :: before) (fun t ht => top t ?_) s h
      cases node with
      | text _ => exact ht
      | contents _ => exact ht
      | element e children => exact List.mem_cons_of_mem _ ht

end

theorem childElements_subset_descendants {p : Spot} : p.childElements ⊆ p.descendants :=
  forward_subset_spotsOf

theorem mem_descendants_iff {c s : Spot} :
    s ∈ c.descendants ↔ ∃ p, s ∈ p.childElements ∧ (p = c ∨ p ∈ c.descendants) := by
  have closed : ∀ p ∈ c.descendants, p.childElements ⊆ c.descendants :=
    fun p hp => childElements_subset_spotsOf _ _ _ hp
  have reached : ∀ s ∈ c.descendants, ∃ p, s ∈ p.childElements ∧ (p = c ∨ p ∈ c.descendants) := by
    refine forall_mem_spotsOf (fun p hp s hs => ?_) _ _ _ fun s hs => ⟨c, hs, .inl rfl⟩
    obtain ⟨q, child, rfl | below⟩ := hp
    · exact ⟨p, hs, .inr (childElements_subset_descendants child)⟩
    · exact ⟨p, hs, .inr (closed q below child)⟩
  refine ⟨reached s, ?_⟩
  rintro ⟨p, child, rfl | below⟩
  · exact childElements_subset_descendants child
  · exact closed p below child

theorem ancestors_congr {s t : Spot} (h : t.above = s.above) : t.ancestors = s.ancestors := by
  obtain ⟨e, children, before, after, above⟩ := s
  obtain ⟨e', children', before', after', above'⟩ := t
  obtain rfl : above' = above := h
  cases above' <;> rfl

theorem Spot.inwards {P : Spot → Prop} (top : ∀ s : Spot, (∀ p, s.above ≠ .element p) → P s)
    (step : ∀ s p : Spot, s.above = .element p → P p → P s) : ∀ s, P s
  | .mk _ _ _ _ (.element p) => step _ p rfl (Spot.inwards top step p)
  | .mk _ _ _ _ .document => top _ (by rintro _ ⟨⟩)
  | .mk _ _ _ _ .contents => top _ (by rintro _ ⟨⟩)
  | .mk _ _ _ _ .nothing => top _ (by rintro _ ⟨⟩)

theorem ancestors_of_above {s p : Spot} (h : s.above = .element p) :
    s.ancestors = p :: p.ancestors := by
  obtain ⟨e, children, before, after, above⟩ := s
  obtain rfl : above = .element p := h
  rfl

theorem ancestors_eq_nil {s : Spot} (h : ∀ p, s.above ≠ .element p) : s.ancestors = [] := by
  obtain ⟨e, children, before, after, above⟩ := s
  cases above with
  | element p => exact absurd rfl (h p)
  | document => rfl
  | contents => rfl
  | nothing => rfl

namespace Document

variable {d : Document}

theorem childElements_subset_all {p : Spot} (h : p ∈ d.all) : p.childElements ⊆ d.all := by
  rcases List.mem_append.1 h with h | h
  · exact List.subset_append_of_subset_left _ (childElements_subset_spotsOf _ _ _ h)
  · obtain ⟨node, detached, h⟩ := List.mem_flatMap.1 h
    refine List.subset_append_of_subset_right _ fun s hs => ?_
    exact List.mem_flatMap.2 ⟨node, detached, childElements_subset_node_spots node _ _ _ h hs⟩

theorem descendants_subset_all {p : Spot} (h : p ∈ d.all) : p.descendants ⊆ d.all :=
  fun s hs => forall_mem_spotsOf (fun _ hp _ hs => childElements_subset_all hp hs) _ _ _
    (fun _ ht => childElements_subset_all h ht) s hs

theorem place_of_mem_all {s : Spot} (h : s ∈ d.all) :
    s ∈ d.tops ∨ s.above = .nothing ∨ s.above = .contents ∨
      ∃ p ∈ d.all, s ∈ p.childElements := by
  rcases List.mem_append.1 h with h | h
  · rcases parent_of_mem_spotsOf _ _ _ h with top | top | ⟨p, hp, child⟩
    · exact .inl top
    · exact .inr (.inr (.inl top))
    · exact .inr (.inr (.inr ⟨p, List.mem_append_left _ hp, child⟩))
  · obtain ⟨node, detached, h⟩ := List.mem_flatMap.1 h
    rcases parent_of_mem_node_spots node _ _ _ h with top | top | ⟨p, hp, child⟩
    · exact .inr (.inl (above_of_mem_forward top))
    · exact .inr (.inr (.inl top))
    · exact .inr (.inr (.inr
        ⟨p, List.mem_append_right _ (List.mem_flatMap.2 ⟨node, detached, hp⟩), child⟩))

theorem parent_mem_all {s p : Spot} (h : s ∈ d.all) (above : s.above = .element p) :
    p ∈ d.all ∧ s ∈ p.childElements := by
  rcases place_of_mem_all h with top | top | top | ⟨q, hq, child⟩
  · cases (above_of_mem_forward top).symm.trans above
  · cases top.symm.trans above
  · cases top.symm.trans above
  · cases (above_of_mem_childElements child).symm.trans above
    exact ⟨hq, child⟩

theorem mem_tops_iff {s : Spot} : s ∈ d.tops ↔ s ∈ d.all ∧ s.above = .document := by
  constructor
  · exact fun h => ⟨List.mem_append_left _ (forward_subset_spotsOf h), above_of_mem_forward h⟩
  · rintro ⟨h, above⟩
    rcases place_of_mem_all h with top | top | top | ⟨q, -, child⟩
    · exact top
    · cases top.symm.trans above
    · cases top.symm.trans above
    · cases (above_of_mem_childElements child).symm.trans above

theorem mem_ancestors_iff {c s : Spot} (h : s ∈ d.all) :
    c ∈ s.ancestors ↔ c ∈ d.all ∧ s ∈ c.descendants := by
  induction s using Spot.inwards with
  | top s outermost =>
    rw [ancestors_eq_nil outermost, mem_descendants_iff]
    refine ⟨fun none => (List.not_mem_nil none).elim, ?_⟩
    rintro ⟨-, p, child, -⟩
    exact absurd (above_of_mem_childElements child) (outermost p)
  | step s p above ih =>
    obtain ⟨hp, child⟩ := parent_mem_all h above
    rw [ancestors_of_above above, List.mem_cons, ih hp, mem_descendants_iff (s := s)]
    constructor
    · rintro (rfl | ⟨hc, below⟩)
      · exact ⟨hp, c, child, .inl rfl⟩
      · exact ⟨hc, p, child, .inr below⟩
    · rintro ⟨hc, q, other, same⟩
      cases above.symm.trans (above_of_mem_childElements other)
      rcases same with rfl | below
      · exact .inl rfl
      · exact .inr ⟨hc, below⟩

theorem mem_spots_iff {s : Spot} : s ∈ d.spots ↔ s ∈ d.placed := List.mem_mergeSort

theorem placed_subset_all : d.placed ⊆ d.all := by
  intro s hs
  rcases List.mem_append.1 hs with hs | hs
  · exact List.mem_append_left _ hs
  · obtain ⟨node, detached, hs⟩ := List.mem_flatMap.1 hs
    exact List.mem_append_right _ (List.mem_flatMap.2 ⟨node, detached, List.mem_of_mem_drop hs⟩)

theorem ascending_spots : d.spots.Pairwise fun s t => s.info.number ≤ t.info.number := by
  have sorted : d.spots.Pairwise fun s t => decide (s.info.number ≤ t.info.number) = true := by
    refine List.pairwise_mergeSort (fun a b c ab bc => ?_) (fun a b => ?_) _
    · exact decide_eq_true (Nat.le_trans (of_decide_eq_true ab) (of_decide_eq_true bc))
    · simpa using Nat.le_total a.info.number b.info.number
  exact sorted.imp of_decide_eq_true

/-- Where no element came to be after one that it stands before, elements are found in the order of
the tree. -/
theorem spots_eq_placed (h : d.placed.Pairwise fun s t => s.info.number ≤ t.info.number) :
    d.spots = d.placed := List.mergeSort_of_pairwise (h.imp fun le => by simpa using le)

theorem text_of_find?_spots {q : Spot → Bool} {found : List (Nat × String)} {n : Nat}
    {text : String} (all : (d.placed.filter q).map (fun s => (s.info.number, s.text)) = found)
    (mem : (n, text) ∈ found) (least : ∀ m ∈ found, m = (n, text) ∨ n < m.1) :
    (d.spots.find? q).map Spot.text = some text := by
  subst all
  obtain ⟨s, hs, same⟩ := List.mem_map.1 mem
  obtain ⟨placed, holds⟩ := List.mem_filter.1 hs
  have here : s ∈ d.spots := mem_spots_iff.2 placed
  cases search : d.spots.find? q with
  | none => exact absurd holds (List.find?_eq_none.1 search s here)
  | some f =>
    obtain ⟨first, before, after, split, none_⟩ := List.find?_eq_some_iff_append.1 search
    have sorted := d.ascending_spots
    rw [split] at here sorted
    have le : f.info.number ≤ s.info.number := by
      rcases List.mem_append.1 here with early | late
      · simpa [holds] using none_ s early
      · rcases List.mem_cons.1 late with rfl | behind
        · exact Nat.le_refl _
        · exact (List.pairwise_cons.1 (List.pairwise_append.1 sorted).2.1).1 s behind
    have found : (f.info.number, f.text) ∈
        (d.placed.filter q).map (fun s => (s.info.number, s.text)) :=
      List.mem_map_of_mem (List.mem_filter.2
        ⟨mem_spots_iff.1 (List.mem_of_find?_eq_some search), first⟩)
    rcases least _ found with equal | less
    · cases equal
      rfl
    · cases same
      exact absurd less (Nat.not_lt.2 le)

end Document

end Toolwright.Html
