import Mathlib.Data.List.Basic
import Mathlib.Data.List.Pairwise
import Mathlib.Tactic.SplitIfs

/-!
# Greedy selection

Items are looked at one after another, and an item is kept unless it conflicts
with one that has been kept before.  The selection may also be computed by
removing what conflicts with each kept item, or by a mask in which an item is
marked exactly when no marked item before it conflicts with it.
-/

namespace GreedySelection

variable {Item : Type*} (conflicts : Item → Item → Bool)

/-- What is kept of a list beside the items that have been kept already. -/
def selectBeside (kept : List Item) : List Item → List Item
  | [] => []
  | item :: rest =>
      if kept.any (conflicts · item) then selectBeside kept rest
      else item :: selectBeside (item :: kept) rest

def select (items : List Item) : List Item :=
  selectBeside conflicts [] items

@[simp]
theorem selectBeside_nil (kept : List Item) :
    selectBeside conflicts kept [] = [] :=
  rfl

/-- One item of the selection. -/
theorem selectBeside_item (kept : List Item) (item : Item) (rest : List Item) :
    selectBeside conflicts kept (item :: rest) =
      if kept.any (conflicts · item) then selectBeside conflicts kept rest
      else item :: selectBeside conflicts (item :: kept) rest :=
  rfl

@[simp]
theorem select_nil : select conflicts [] = [] :=
  rfl

/-- Of the kept items only what they conflict with matters. -/
theorem selectBeside_congr {kept kept' : List Item} (items : List Item)
    (agree : ∀ item, kept.any (conflicts · item) =
      kept'.any (conflicts · item)) :
    selectBeside conflicts kept items = selectBeside conflicts kept' items := by
  induction items generalizing kept kept' with
  | nil => rfl
  | cons item rest ih =>
      have agreeAfter : ∀ other,
          (item :: kept).any (conflicts · other) =
            (item :: kept').any (conflicts · other) := by
        intro other
        simp only [List.any_cons, agree other]
      simp only [selectBeside_item, agree item, ih agree, ih agreeAfter]

/-- A kept item may be forgotten when what it conflicts with is removed. -/
theorem selectBeside_cons (first : Item) (kept items : List Item) :
    selectBeside conflicts (first :: kept) items =
      selectBeside conflicts kept
        (items.filter fun item => !conflicts first item) := by
  induction items generalizing kept with
  | nil => rfl
  | cons item rest ih =>
      have swap : selectBeside conflicts (item :: first :: kept) rest =
          selectBeside conflicts (first :: item :: kept) rest := by
        apply selectBeside_congr
        intro other
        simp only [List.any_cons, Bool.or_left_comm]
      by_cases conflict : conflicts first item = true
      · simp [selectBeside_item, conflict, ih]
      · by_cases before : kept.any (conflicts · item) = true
        · simp [selectBeside_item, conflict, before, ih]
        · simp [selectBeside_item, conflict, before, swap, ih]

/-- The first item is kept, and what it conflicts with is removed. -/
theorem select_cons (first : Item) (items : List Item) :
    select conflicts (first :: items) =
      first :: select conflicts
        (items.filter fun item => !conflicts first item) := by
  simp [select, selectBeside_item, selectBeside_cons]

/-- Two relations that agree on the items select the same. -/
theorem selectBeside_congr_conflicts {conflicts' : Item → Item → Bool}
    {kept items : List Item}
    (beside : ∀ item ∈ items, kept.any (conflicts · item) =
      kept.any (conflicts' · item))
    (agree : items.Pairwise
      (fun before after => conflicts before after = conflicts' before after)) :
    selectBeside conflicts kept items = selectBeside conflicts' kept items := by
  induction items generalizing kept with
  | nil => rfl
  | cons item rest ih =>
      obtain ⟨first, agree⟩ := List.pairwise_cons.mp agree
      have besideRest : ∀ other ∈ rest, kept.any (conflicts · other) =
          kept.any (conflicts' · other) :=
        fun other mem => beside other (List.mem_cons_of_mem item mem)
      have besideItem : ∀ other ∈ rest,
          (item :: kept).any (conflicts · other) =
            (item :: kept).any (conflicts' · other) := by
        intro other mem
        simp only [List.any_cons, first other mem, besideRest other mem]
      simp only [selectBeside_item, beside item List.mem_cons_self,
        ih besideRest agree, ih besideItem agree]

theorem select_congr_conflicts {conflicts' : Item → Item → Bool}
    {items : List Item}
    (agree : items.Pairwise
      (fun before after => conflicts before after = conflicts' before after)) :
    select conflicts items = select conflicts' items :=
  selectBeside_congr_conflicts conflicts (fun _ _ => rfl) agree

/-- A selection among the images of items is one among the items. -/
theorem selectBeside_map {Source : Type*} (image : Source → Item)
    (kept items : List Source) :
    selectBeside conflicts (kept.map image) (items.map image) =
      (selectBeside (fun before after => conflicts (image before) (image after))
        kept items).map image := by
  induction items generalizing kept with
  | nil => rfl
  | cons item rest ih =>
      have after := ih (item :: kept)
      rw [List.map_cons] at after
      simp only [selectBeside_item, List.map_cons, List.any_map, ih kept, after,
        Function.comp_def]
      split_ifs <;> rfl

theorem select_map {Source : Type*} (image : Source → Item)
    (items : List Source) :
    select conflicts (items.map image) =
      (select (fun before after => conflicts (image before) (image after))
        items).map image :=
  selectBeside_map conflicts image [] items

theorem selectBeside_sublist (kept items : List Item) :
    (selectBeside conflicts kept items).Sublist items := by
  induction items generalizing kept with
  | nil => exact List.Sublist.refl []
  | cons item rest ih =>
      rw [selectBeside_item]
      split_ifs
      · exact (ih kept).cons item
      · exact (ih (item :: kept)).cons_cons item

theorem select_sublist (items : List Item) :
    (select conflicts items).Sublist items :=
  selectBeside_sublist conflicts [] items

theorem not_conflicts_of_mem_selectBeside {kept items : List Item}
    {item : Item} (mem : item ∈ selectBeside conflicts kept items) :
    kept.any (conflicts · item) = false := by
  induction items generalizing kept with
  | nil => simp at mem
  | cons first rest ih =>
      rw [selectBeside_item] at mem
      split_ifs at mem with conflict
      · exact ih mem
      · rcases List.mem_cons.mp mem with rfl | mem
        · simpa using conflict
        · have besides := ih mem
          rw [List.any_cons, Bool.or_eq_false_iff] at besides
          exact besides.2

/-- No kept item conflicts with one that is kept after it. -/
theorem selectBeside_pairwise (kept items : List Item) :
    (selectBeside conflicts kept items).Pairwise
      (fun before after => conflicts before after = false) := by
  induction items generalizing kept with
  | nil => exact List.Pairwise.nil
  | cons item rest ih =>
      rw [selectBeside_item]
      split_ifs
      · exact ih kept
      · refine List.pairwise_cons.mpr ⟨fun after mem => ?_, ih (item :: kept)⟩
        have besides := not_conflicts_of_mem_selectBeside conflicts mem
        rw [List.any_cons, Bool.or_eq_false_iff] at besides
        exact besides.1

theorem select_pairwise (items : List Item) :
    (select conflicts items).Pairwise
      (fun before after => conflicts before after = false) :=
  selectBeside_pairwise conflicts [] items

/-- An item that is not kept conflicts with one kept beforehand, or with one
that comes before it and is kept. -/
theorem conflicts_of_not_mem_selectBeside {kept items : List Item}
    {item : Item} (mem : item ∈ items)
    (dropped : item ∉ selectBeside conflicts kept items) :
    kept.any (conflicts · item) = true ∨
      ∃ before ∈ selectBeside conflicts kept items,
        conflicts before item = true ∧ [before, item].Sublist items := by
  induction items generalizing kept with
  | nil => simp at mem
  | cons first rest ih =>
      rw [selectBeside_item] at dropped ⊢
      split_ifs at dropped ⊢ with conflict
      · rcases List.mem_cons.mp mem with rfl | mem
        · exact Or.inl conflict
        · rcases ih mem dropped with earlier | ⟨before, kept, meets, order⟩
          · exact Or.inl earlier
          · exact Or.inr ⟨before, kept, meets, order.cons first⟩
      · rw [List.mem_cons, not_or] at dropped
        have mem : item ∈ rest := (List.mem_cons.mp mem).resolve_left dropped.1
        rcases ih mem dropped.2 with earlier | ⟨before, kept, meets, order⟩
        · rw [List.any_cons, Bool.or_eq_true] at earlier
          rcases earlier with meets | earlier
          · exact Or.inr ⟨first, List.mem_cons_self, meets,
              (List.singleton_sublist.mpr mem).cons_cons first⟩
          · exact Or.inl earlier
        · exact Or.inr ⟨before, List.mem_cons_of_mem first kept, meets,
            order.cons first⟩

theorem conflicts_of_not_mem_select {items : List Item} {item : Item}
    (mem : item ∈ items) (dropped : item ∉ select conflicts items) :
    ∃ before ∈ select conflicts items,
      conflicts before item = true ∧ [before, item].Sublist items := by
  rcases conflicts_of_not_mem_selectBeside conflicts mem dropped with
    none | found
  · simp at none
  · exact found

/-- Where nothing conflicts everything is kept. -/
theorem select_eq_self {items : List Item}
    (free : items.Pairwise
      (fun before after => conflicts before after = false)) :
    select conflicts items = items := by
  induction items with
  | nil => rfl
  | cons first rest ih =>
      rw [List.pairwise_cons] at free
      have nothing : (rest.filter fun item => !conflicts first item) = rest :=
        List.filter_eq_self.mpr fun item mem => by simp [free.1 item mem]
      rw [select_cons, nothing, ih free.2]

/-- A second selection keeps everything. -/
theorem select_select (items : List Item) :
    select conflicts (select conflicts items) = select conflicts items :=
  select_eq_self conflicts (select_pairwise conflicts items)

/-! ## Masks -/

/-- The mask, read from a position on, marks the items that conflict neither
with what has been kept beforehand nor with a marked item before them. -/
def Marks (mask : Nat → Bool) (start : Nat) (kept items : List Item) : Prop :=
  ∀ later (inRange : later < items.length),
    mask (start + later) = true ↔
      kept.any (conflicts · items[later]) = false ∧
        ∀ earlier (before : earlier < later), mask (start + earlier) = true →
          conflicts items[earlier] items[later] = false

section Masks

variable {conflicts} {mask : Nat → Bool} {start : Nat} {item : Item}
  {kept rest : List Item}

theorem Marks.head (marks : Marks conflicts mask start kept (item :: rest)) :
    mask start = true ↔ kept.any (conflicts · item) = false := by
  have whole := marks 0 (by simp)
  simp only [List.getElem_cons_zero] at whole
  simpa using whole

/-- The marks of the later items, on which a marked first item bears. -/
theorem Marks.later (marks : Marks conflicts mask start kept (item :: rest))
    (later : Nat) (inRange : later < rest.length) :
    mask (start + 1 + later) = true ↔
      (kept.any (conflicts · rest[later]) = false ∧
        (mask start = true → conflicts item rest[later] = false)) ∧
      ∀ earlier (before : earlier < later),
        mask (start + 1 + earlier) = true →
          conflicts rest[earlier] rest[later] = false := by
  have next : ∀ index, start + (index + 1) = start + 1 + index := by
    intro index
    omega
  have whole := marks (later + 1) (by simpa using inRange)
  rw [next] at whole
  rw [whole, and_assoc]
  refine and_congr_right fun _ => ⟨fun free => ⟨?_, ?_⟩, ?_⟩
  · intro first
    exact free 0 (by omega) first
  · intro earlier before keptBefore
    exact free (earlier + 1) (by omega) (by rwa [next])
  · rintro ⟨first, free⟩ earlier before keptBefore
    cases earlier with
    | zero => exact first keptBefore
    | succ earlier =>
        rw [next] at keptBefore
        exact free earlier (by omega) keptBefore

theorem Marks.of_marked
    (marks : Marks conflicts mask start kept (item :: rest))
    (marked : mask start = true) :
    Marks conflicts mask (start + 1) (item :: kept) rest := by
  intro later inRange
  rw [marks.later later inRange, List.any_cons, Bool.or_eq_false_iff]
  simp only [marked, true_implies]
  exact and_congr_left fun _ => and_comm

theorem Marks.of_unmarked
    (marks : Marks conflicts mask start kept (item :: rest))
    (unmarked : ¬ mask start = true) :
    Marks conflicts mask (start + 1) kept rest := by
  intro later inRange
  rw [marks.later later inRange]
  simp [unmarked]

theorem filter_mask_eq_selectBeside {items : List Item}
    (marks : Marks conflicts mask start kept items) :
    ((items.zipIdx start).filter (fun entry => mask entry.2)).map Prod.fst =
      selectBeside conflicts kept items := by
  induction items generalizing kept start with
  | nil => rfl
  | cons item rest ih =>
      by_cases marked : mask start = true
      · have free := marks.head.mp marked
        rw [List.zipIdx_cons, List.filter_cons_of_pos (by exact marked),
          List.map_cons, selectBeside_item, if_neg (by simp [free]), ih (marks.of_marked marked)]
      · have conflict : kept.any (conflicts · item) = true := by
          simpa using fun free => marked (marks.head.mpr free)
        rw [List.zipIdx_cons, List.filter_cons_of_neg (by exact marked),
          selectBeside_item, if_pos conflict, ih (marks.of_unmarked marked)]

end Masks

/-- A mask in which an item is marked exactly when no marked item before it
conflicts with it marks the selection. -/
theorem filter_mask_eq_select (mask : Nat → Bool) (items : List Item)
    (marked : ∀ later (inRange : later < items.length),
      mask later = true ↔
        ∀ earlier (before : earlier < later), mask earlier = true →
          conflicts items[earlier] items[later] = false) :
    (items.zipIdx.filter (fun entry => mask entry.2)).map Prod.fst =
      select conflicts items := by
  apply filter_mask_eq_selectBeside
  intro later inRange
  simpa using marked later inRange

end GreedySelection
