import Mathlib.Data.List.Basic

/-!
# Rows of a flat list

A matrix as the list of its entries, row by row.  Loops may write its cells in
any order: what they make of it depends on what they write, and not on when.
-/

namespace FlatRows

variable {Item : Type*} {size : Nat} {data entries : List Item}

/-- A row; it is shorter where the list ends. -/
def row (size : Nat) (data : List Item) (index : Nat) : List Item :=
  (data.drop (index * size)).take size

/-- The list with other entries in a row. -/
def setRow (size : Nat) (data : List Item) (index : Nat) (entries : List Item) :
    List Item :=
  data.take (index * size) ++ entries ++ data.drop ((index + 1) * size)

theorem length_row {index : Nat} (within : (index + 1) * size ≤ data.length) :
    (row size data index).length = size := by
  rw [Nat.add_mul, Nat.one_mul] at within
  rw [row, List.length_take, List.length_drop]
  omega

theorem row_replicate {rows index : Nat} (less : index < rows) (item : Item) :
    row size (List.replicate (rows * size) item) index =
      List.replicate size item := by
  have within := Nat.mul_le_mul_right size (Nat.succ_le_of_lt less)
  rw [Nat.succ_mul] at within
  rw [row, List.drop_replicate, List.take_replicate]
  congr 1
  omega

theorem length_setRow {index : Nat} (sized : entries.length = size)
    (within : (index + 1) * size ≤ data.length) :
    (setRow size data index entries).length = data.length := by
  rw [Nat.add_mul, Nat.one_mul] at within
  simp only [setRow, List.length_append, List.length_take, List.length_drop, sized,
    Nat.add_mul, Nat.one_mul]
  omega

theorem row_setRow_self {index : Nat} (sized : entries.length = size)
    (within : (index + 1) * size ≤ data.length) :
    row size (setRow size data index entries) index = entries := by
  rw [Nat.add_mul, Nat.one_mul] at within
  have before : (data.take (index * size)).length = index * size :=
    List.length_take_of_le (by omega)
  rw [row, setRow, List.append_assoc, List.drop_left' before,
    List.take_left' sized]

/-- The entries outside a row stay when it is set. -/
theorem getElem?_setRow {index place : Nat} (sized : entries.length = size)
    (within : (index + 1) * size ≤ data.length)
    (outside : place < index * size ∨ (index + 1) * size ≤ place) :
    (setRow size data index entries)[place]? = data[place]? := by
  rw [Nat.add_mul, Nat.one_mul] at within outside
  have before : (data.take (index * size)).length = index * size :=
    List.length_take_of_le (by omega)
  rw [setRow, List.append_assoc]
  rcases outside with early | late
  · rw [List.getElem?_append_left (by omega), List.getElem?_take_of_lt early]
  · rw [List.getElem?_append_right (by omega), before,
      List.getElem?_append_right (by omega), List.getElem?_drop, sized, Nat.add_mul,
      Nat.one_mul]
    congr 1
    omega

theorem row_setRow_of_ne {index other : Nat} (sized : entries.length = size)
    (within : (index + 1) * size ≤ data.length) (apart : other ≠ index) :
    row size (setRow size data index entries) other = row size data other := by
  apply List.ext_getElem?
  intro place
  rw [row, row, List.getElem?_take, List.getElem?_take]
  split_ifs with inside
  · rw [List.getElem?_drop, List.getElem?_drop]
    refine getElem?_setRow sized within ?_
    rcases Nat.lt_or_gt_of_ne apart with early | late
    · have below := Nat.mul_le_mul_right size (Nat.succ_le_of_lt early)
      rw [Nat.succ_mul] at below
      exact Or.inl (by omega)
    · exact Or.inr (Nat.le_add_right_of_le (Nat.mul_le_mul_right size late))
  · rfl

/-! ## Tables -/

/-- The matrix of an entry for each row and column. -/
def table (rows size : Nat) (entry : Nat → Nat → Item) : List Item :=
  (List.range (rows * size)).map fun place => entry (place / size) (place % size)

variable {rows : Nat} {entry fresh : Nat → Nat → Item}

@[simp]
theorem length_table : (table rows size entry).length = rows * size := by
  rw [table, List.length_map, List.length_range]

theorem place_lt {index column : Nat} (inRow : index < rows)
    (inSize : column < size) : index * size + column < rows * size := by
  have next := Nat.mul_le_mul_right size (Nat.succ_le_of_lt inRow)
  rw [Nat.succ_mul] at next
  omega

theorem place_div {index column : Nat} (inSize : column < size) :
    (index * size + column) / size = index := by
  rw [Nat.mul_comm, Nat.mul_add_div (by omega), Nat.div_eq_of_lt inSize,
    Nat.add_zero]

theorem place_mod {index column : Nat} (inSize : column < size) :
    (index * size + column) % size = column := by
  rw [Nat.mul_comm, Nat.mul_add_mod, Nat.mod_eq_of_lt inSize]

theorem getElem?_table {index column : Nat} (inRow : index < rows)
    (inSize : column < size) :
    (table rows size entry)[index * size + column]? = some (entry index column) := by
  rw [table, List.getElem?_map, List.getElem?_range (place_lt inRow inSize),
    Option.map_some, place_div inSize, place_mod inSize]

/-- Every place of a matrix is in a row and a column. -/
theorem exists_place {place : Nat} (inTable : place < rows * size) :
    ∃ index < rows, ∃ column < size, index * size + column = place := by
  have positive : 0 < size := by
    rcases Nat.eq_zero_or_pos size with rfl | positive
    · simp at inTable
    · exact positive
  exact ⟨place / size, Nat.div_lt_of_lt_mul (by rwa [Nat.mul_comm] at inTable),
    place % size, Nat.mod_lt place positive, Nat.div_add_mod' place size⟩

/-- A list is a table when its places hold the entries. -/
theorem eq_table (sized : data.length = rows * size)
    (entries : ∀ index < rows, ∀ column < size,
      data[index * size + column]? = some (entry index column)) :
    data = table rows size entry := by
  apply List.ext_getElem?
  intro place
  rcases Nat.lt_or_ge place (rows * size) with inside | outside
  · obtain ⟨index, inRow, column, inSize, rfl⟩ := exists_place inside
    rw [entries index inRow column inSize, getElem?_table inRow inSize]
  · rw [List.getElem?_eq_none (by omega),
      List.getElem?_eq_none (by rw [length_table]; exact outside)]

theorem table_congr (same : ∀ index < rows, ∀ column < size,
    entry index column = fresh index column) :
    table rows size entry = table rows size fresh := by
  apply eq_table length_table
  intro index inRow column inSize
  rw [getElem?_table inRow inSize, same index inRow column inSize]

theorem map_table {Other : Type*} (f : Item → Other) :
    (table rows size entry).map f =
      table rows size fun index column => f (entry index column) := by
  rw [table, table, List.map_map]
  rfl

theorem row_table {index : Nat} (inRow : index < rows) :
    row size (table rows size entry) index = (List.range size).map (entry index) := by
  apply List.ext_getElem?
  intro column
  rw [row, List.getElem?_take, List.getElem?_map]
  split_ifs with inside
  · rw [List.getElem?_drop, getElem?_table inRow inside,
      List.getElem?_range inside, Option.map_some]
  · rw [List.getElem?_eq_none (by rw [List.length_range]; omega), Option.map_none]

/-- A row is replaced by that of another table. -/
theorem setRow_table {index : Nat} (inRow : index < rows) :
    setRow size (table rows size entry) index
        (row size (table rows size fresh) index) =
      table rows size fun other column =>
        if other = index then fresh other column else entry other column := by
  have within : (index + 1) * size ≤ (table rows size entry).length := by
    rw [length_table]
    exact Nat.mul_le_mul_right size inRow
  have sized : (row size (table rows size fresh) index).length = size :=
    length_row (by rw [length_table]; exact Nat.mul_le_mul_right size inRow)
  refine eq_table ((length_setRow sized within).trans length_table) ?_
  intro other otherRow column inSize
  split_ifs with same
  · subst same
    have here := row_setRow_self sized within
    rw [row_table inRow] at here
    have entries := congrArg (·[column]?) here
    simp only [row, List.getElem?_take, if_pos inSize, List.getElem?_drop,
      List.getElem?_map, List.getElem?_range inSize, Option.map_some] at entries
    rwa [row_table inRow]
  · rw [getElem?_setRow sized within, getElem?_table otherRow inSize]
    rcases Nat.lt_or_gt_of_ne same with early | late
    · exact Or.inl (place_lt early inSize)
    · exact Or.inr (Nat.le_add_right_of_le (Nat.mul_le_mul_right size late))

/-! ## Rows one after another -/

/-- Put the results that come into rows, from a row on, as long as there are
results. -/
def assemble {Failure : Type*} (size : Nat) :
    Nat → List (Except Failure (List Item)) → List Item →
      Except Failure (List Item)
  | _, [], out => .ok out
  | index, result :: results, out =>
      result.bind fun entries =>
        assemble size (index + 1) results (setRow size out index entries)

theorem take_setRow {index : Nat} (sized : entries.length = size)
    (within : (index + 1) * size ≤ data.length) :
    (setRow size data index entries).take ((index + 1) * size) =
      data.take (index * size) ++ entries := by
  rw [Nat.add_mul, Nat.one_mul] at within ⊢
  have before : (data.take (index * size)).length = index * size :=
    List.length_take_of_le (by omega)
  rw [setRow]
  exact List.take_left' (by rw [List.length_append, before, sized])

/-- Rows of the right size that fill a list are the list. -/
theorem assemble_ok {Failure : Type*} {blocks : List (List Item)} {index : Nat}
    (sized : ∀ block ∈ blocks, block.length = size)
    (fills : data.length = (index + blocks.length) * size) :
    assemble size index (blocks.map Except.ok) data =
      (.ok (data.take (index * size) ++ blocks.flatten) :
        Except Failure (List Item)) := by
  induction blocks generalizing index data with
  | nil =>
      rw [List.length_nil, Nat.add_zero] at fills
      rw [List.map_nil, assemble, List.flatten_nil, List.append_nil,
        List.take_of_length_le (by omega)]
  | cons block blocks ih =>
      have blockSize := sized block List.mem_cons_self
      have within : (index + 1) * size ≤ data.length := by
        rw [fills, List.length_cons]
        exact Nat.mul_le_mul_right size (by omega)
      rw [List.map_cons, assemble, Except.bind,
        ih (fun other mem => sized other (List.mem_cons_of_mem block mem))
          (by rw [length_setRow blockSize within, fills, List.length_cons]
              congr 1
              omega),
        take_setRow blockSize within, List.flatten_cons, List.append_assoc]

/-- What is assembled has come, and a result that has not come stops it. -/
theorem assemble_eq_ok {Failure : Type*} {index : Nat}
    {results : List (Except Failure (List Item))} {out : List Item}
    (assembled : assemble size index results data = .ok out) :
    ∃ blocks : List (List Item), results = blocks.map Except.ok := by
  induction results generalizing index data with
  | nil => exact ⟨[], rfl⟩
  | cons result results ih =>
      cases result with
      | error failure => cases assembled
      | ok entries =>
          obtain ⟨blocks, rfl⟩ := ih assembled
          exact ⟨entries :: blocks, rfl⟩

theorem assemble_error {Failure : Type*} {index : Nat} {blocks : List (List Item)}
    {failure : Failure} {rest : List (Except Failure (List Item))} :
    assemble size index (blocks.map Except.ok ++ .error failure :: rest) data =
      .error failure := by
  induction blocks generalizing index data with
  | nil => rfl
  | cons block blocks ih => exact ih

theorem row_flatten {blocks : List (List Item)}
    (sized : ∀ block ∈ blocks, block.length = size) {index : Nat}
    (inBlocks : index < blocks.length) :
    row size blocks.flatten index = blocks[index] := by
  induction blocks generalizing index with
  | nil => cases inBlocks
  | cons block blocks ih =>
      have blockSize := sized block List.mem_cons_self
      have others := fun other mem => sized other (List.mem_cons_of_mem block mem)
      cases index with
      | zero =>
          rw [row, Nat.zero_mul, List.drop_zero, List.flatten_cons,
            List.take_left' blockSize]
          rfl
      | succ index =>
          have next := ih others (Nat.lt_of_succ_lt_succ inBlocks)
          rw [row] at next ⊢
          rw [Nat.succ_mul, Nat.add_comm, ← List.drop_drop, List.flatten_cons,
            List.drop_left' blockSize, next]
          rfl

/-! ## Cells written in any order -/

section Scatter

variable {Index : Type*} {target : Index → Nat} {value : Index → Option Item}

/-- A write to a cell, which there must be. -/
def store (data : List Item) (place : Nat) (item : Item) : Option (List Item) :=
  if place < data.length then some (data.set place item) else none

/-- Write the cells of some indices one after another, if all of them can be
read and written. -/
def scatter (target : Index → Nat) (value : Index → Option Item) :
    List Index → List Item → Option (List Item)
  | [], data => some data
  | index :: indices, data =>
      (value index).bind fun item =>
        (store data (target index) item).bind (scatter target value indices)

theorem scatter_cons {index : Index} {indices : List Index} {item : Item}
    (isValue : value index = some item) (within : target index < data.length) :
    scatter target value (index :: indices) data =
      scatter target value indices (data.set (target index) item) := by
  rw [scatter, isValue, Option.bind_some, store, if_pos within, Option.bind_some]

/-- A value that cannot be read stops the loops. -/
theorem scatter_eq_none {indices : List Index} {index : Index}
    (mem : index ∈ indices) (missing : value index = none) (data : List Item) :
    scatter target value indices data = none := by
  induction indices generalizing data with
  | nil => cases mem
  | cons first indices ih =>
      rw [scatter, Option.bind_eq_none_iff]
      intro item isValue
      rcases List.mem_cons.mp mem with rfl | later
      · rw [missing] at isValue
        cases isValue
      · rw [Option.bind_eq_none_iff]
        exact fun changed _ => ih later changed

/-- Loops that write the cells of a result make the result, in whichever order
they write them and however often, if they write all cells that differ. -/
theorem scatter_eq_some {indices : List Index} {data result : List Item}
    (sized : result.length = data.length)
    (writes : ∀ index ∈ indices, ∃ item, value index = some item ∧
      result[target index]? = some item)
    (covers : ∀ place < data.length,
      (∃ index ∈ indices, target index = place) ∨ data[place]? = result[place]?) :
    scatter target value indices data = some result := by
  induction indices generalizing data with
  | nil =>
      have same : data = result := by
        apply List.ext_getElem?
        intro place
        rcases Nat.lt_or_ge place data.length with inside | outside
        · exact (covers place inside).resolve_left (by simp)
        · rw [List.getElem?_eq_none outside, List.getElem?_eq_none (by omega)]
      rw [scatter, same]
  | cons index indices ih =>
      obtain ⟨item, isValue, isWritten⟩ := writes index List.mem_cons_self
      have within : target index < data.length := by
        rw [← sized]
        exact (List.getElem?_eq_some_iff.mp isWritten).1
      rw [scatter_cons isValue within]
      apply ih
      · rw [List.length_set, sized]
      · exact fun other mem => writes other (List.mem_cons_of_mem index mem)
      · intro place inside
        rw [List.length_set] at inside
        by_cases same : target index = place
        · refine Or.inr ?_
          rw [← same, isWritten, List.getElem?_set_self within]
        · rw [List.getElem?_set_ne same]
          refine (covers place inside).imp_left ?_
          rintro ⟨other, mem, rfl⟩
          exact ⟨other, (List.mem_cons.mp mem).resolve_left
            fun isFirst => same (congrArg target isFirst.symm), rfl⟩

end Scatter

end FlatRows
