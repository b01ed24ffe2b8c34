import PocketKernel.Proofs.Screen.Tape

/-!
# The screen shows the end of the text

A text is a number of lines, and a line is cut into rows of 80 cells. This is said here of the whole
text at once, with no cursor and no scrolling. The screen, which is written to byte by byte, shows
the last 25 of these rows, and it does so in whatever pieces the text comes.

## Main definitions

* `Screen.textRows`: the rows of a text.
* `Screen.lastRows`: the ones that have room on the screen.

## Main results

* `Screen.shows_lastRows`: what the screen shows after a text.
-/

namespace PocketKernel

namespace Screen

variable {s : Screen}

/-! ### The rows of a text -/

/-- A line cut into rows. All of them but the last one are full, and the last one is empty only if
the line is. -/
def hardWrap (line : List UInt8) : List (List UInt8) :=
  if line.length ≤ screenColumns then [line]
  else line.take screenColumns :: hardWrap (line.drop screenColumns)
termination_by line.length
decreasing_by
  rw [List.length_drop, screenColumns]
  omega

/-- What stands in the cell of a byte: the character itself, or a block if it cannot be shown. -/
def shownByte (byte : UInt8) : UInt8 := if isPrintableByte byte then byte else 0xFE

/-- The rows of a text: those of its lines, one behind the other. -/
def textRows (text : List UInt8) : List (List UInt8) :=
  (text.splitOn 0x0A).flatMap fun line => hardWrap (line.map shownByte)

/-- The rows that have room on the screen: the last ones. -/
def lastRows (rows : List (List UInt8)) : List (List UInt8) := rows.drop (rows.length - screenRows)

/-- The cells of a row that is shown in some colours. What is left of it is blank. -/
def rowOf (colors : UInt8) (row : List UInt8) : List Cell :=
  (row ++ List.replicate (screenColumns - row.length) 0x20).map (⟨·, colors⟩)

theorem length_le_of_mem_hardWrap {line row : List UInt8} (h : row ∈ hardWrap line) :
    row.length ≤ screenColumns := by
  fun_induction hardWrap line with
  | case1 line hfits =>
    obtain rfl := List.mem_singleton.mp h
    exact hfits
  | case2 line hlong ih =>
    rcases List.mem_cons.mp h with rfl | hlater
    · exact List.length_take_le ..
    · exact ih hlater

theorem length_le_of_mem_textRows {text row : List UInt8} (h : row ∈ textRows text) :
    row.length ≤ screenColumns := by
  obtain ⟨line, _, hrow⟩ := List.mem_flatMap.mp h
  exact length_le_of_mem_hardWrap hrow

/-- Rows with one more byte: it goes into the last row, or into a new one if that is full. -/
inductive Extends (byte : UInt8) : List (List UInt8) → List (List UInt8) → Prop where
  | inside (before : List (List UInt8)) {last : List UInt8} (h : last.length < screenColumns) :
    Extends byte (before ++ [last]) (before ++ [last ++ [byte]])
  | behind (before : List (List UInt8)) {last : List UInt8} (h : last.length = screenColumns) :
    Extends byte (before ++ [last]) (before ++ [last] ++ [[byte]])

theorem Extends.append {byte : UInt8} {rows rows' : List (List UInt8)} (h : Extends byte rows rows')
    (before : List (List UInt8)) : Extends byte (before ++ rows) (before ++ rows') := by
  cases h with
  | inside between hlast =>
    rw [← List.append_assoc, ← List.append_assoc]
    exact .inside _ hlast
  | behind between hlast =>
    rw [← List.append_assoc, ← List.append_assoc, ← List.append_assoc]
    exact .behind _ hlast

theorem extends_hardWrap (line : List UInt8) (byte : UInt8) :
    Extends byte (hardWrap line) (hardWrap (line ++ [byte])) := by
  have hlength (line : List UInt8) : (line ++ [byte]).length = line.length + 1 :=
    List.length_append
  fun_induction hardWrap line with
  | case1 line hfits =>
    by_cases hroom : line.length < screenColumns
    · rw [hardWrap, if_pos (by rw [hlength]; exact hroom)]
      exact .inside [] hroom
    · have hfull : line.length = screenColumns := Nat.le_antisymm hfits (Nat.le_of_not_lt hroom)
      have hone : [byte].length ≤ screenColumns := Nat.le_of_ble_eq_true rfl
      rw [hardWrap, if_neg (by rw [hlength]; omega), List.take_left' hfull, List.drop_left' hfull,
        hardWrap, if_pos hone]
      exact .behind [] hfull
  | case2 line hlong ih =>
    have hle := Nat.le_of_lt (Nat.lt_of_not_le hlong)
    rw [hardWrap.eq_def (line ++ [byte]), if_neg (by rw [hlength]; omega),
      List.take_append_of_le_length hle, List.drop_append_of_le_length hle]
    exact ih.append [line.take screenColumns]

/-- A byte that ends no line goes into the last line. -/
theorem exists_splitOn_concat {byte : UInt8} (h : byte ≠ 0x0A) (text : List UInt8) :
    ∃ lines line, text.splitOn 0x0A = lines ++ [line]
      ∧ (text ++ [byte]).splitOn 0x0A = lines ++ [line ++ [byte]] := by
  induction text with
  | nil =>
    refine ⟨[], [], rfl, ?_⟩
    rw [List.nil_append, List.splitOn_cons_eq_if_modifyHead, if_neg (by simpa using h)]
    rfl
  | cons other text ih =>
    obtain ⟨lines, line, hsplit, hsplit'⟩ := ih
    rw [List.cons_append, List.splitOn_cons_eq_if_modifyHead, List.splitOn_cons_eq_if_modifyHead,
      hsplit, hsplit']
    split
    next => exact ⟨[] :: lines, line, rfl, rfl⟩
    next =>
      cases lines with
      | nil => exact ⟨[], other :: line, rfl, rfl⟩
      | cons first lines => exact ⟨(other :: first) :: lines, line, rfl, rfl⟩

/-- No text is one empty row. -/
@[simp] theorem textRows_nil : textRows [] = [[]] := by
  have hfits : ([] : List UInt8).length ≤ screenColumns := Nat.zero_le _
  rw [textRows, List.splitOn_nil, List.flatMap_singleton, List.map_nil, hardWrap, if_pos hfits]

/-- **A line feed** starts a new row, also behind a row that is full. -/
theorem textRows_concat_feed (text : List UInt8) :
    textRows (text ++ [0x0A]) = textRows text ++ [[]] := by
  rw [← textRows_nil, textRows, List.splitOn_append_cons_self, List.flatMap_append, textRows,
    textRows]

/-- **A byte that is shown** goes into the last row, or into a new one if that is full. -/
theorem extends_textRows {byte : UInt8} (h : byte ≠ 0x0A) (text : List UInt8) :
    Extends (shownByte byte) (textRows text) (textRows (text ++ [byte])) := by
  obtain ⟨lines, line, hsplit, hsplit'⟩ := exists_splitOn_concat h text
  rw [textRows, textRows, hsplit, hsplit', List.flatMap_append, List.flatMap_append,
    List.flatMap_singleton, List.flatMap_singleton, List.map_append]
  exact (extends_hardWrap _ _).append _

-- A line feed behind a full row ends that row and leaves no empty one.
example : textRows (List.replicate 80 0x61 ++ [0x0A, 0x07]) = [List.replicate 80 0x61, [0xFE]] := by
  cbv

/-! ### Rows on a tape -/

/-- The tape on which rows stand one behind the other, and then blanks. -/
def rowsTape (colors : UInt8) (rows : List (List UInt8)) (place : ℕ) : Cell :=
  ⟨(rows[place / screenColumns]?.getD [])[place % screenColumns]?.getD 0x20, colors⟩

/-- The place behind the last character of the last row. -/
def endOf (rows : List (List UInt8)) : ℕ :=
  (rows.length - 1) * screenColumns + (rows.getLastD []).length

@[simp] theorem endOf_concat (before : List (List UInt8)) (last : List UInt8) :
    endOf (before ++ [last]) = before.length * screenColumns + last.length := by
  rw [endOf, List.length_append, List.length_singleton, Nat.add_sub_cancel, List.getLastD_concat]

/-- A new row is blank, as the tape is already. -/
theorem rowsTape_concat_nil (colors : UInt8) (rows : List (List UInt8)) :
    rowsTape colors (rows ++ [[]]) = rowsTape colors rows := by
  funext place
  have hrow : (rows ++ [[]])[place / screenColumns]?.getD []
      = rows[place / screenColumns]?.getD [] := by
    rw [List.getElem?_append]
    split
    next => rfl
    next hbehind =>
      rw [List.getElem?_eq_none (Nat.le_of_not_lt hbehind)]
      cases place / screenColumns - rows.length <;> rfl
  rw [rowsTape, rowsTape, hrow]

/-- A byte in the last row is entered on the tape behind that row. -/
theorem rowsTape_inside (colors byte : UInt8) (before : List (List UInt8)) {last : List UInt8}
    (h : last.length < screenColumns) : rowsTape colors (before ++ [last ++ [byte]])
      = Function.update (rowsTape colors (before ++ [last])) (endOf (before ++ [last]))
        ⟨byte, colors⟩ := by
  funext place
  have hplace := Nat.div_add_mod' place screenColumns
  have hmod : place % screenColumns < screenColumns := Nat.mod_lt _ (by decide)
  rw [Function.update_apply, endOf_concat, rowsTape, rowsTape]
  generalize place / screenColumns = row at *
  generalize place % screenColumns = column at *
  subst hplace
  rcases Nat.lt_trichotomy row before.length with hlt | rfl | hgt
  · rw [if_neg, List.getElem?_append_left hlt, List.getElem?_append_left hlt]
    simp only [screenColumns] at *
    omega
  · rw [List.getElem?_concat_length, List.getElem?_concat_length, Option.getD_some,
      Option.getD_some]
    simp only [Nat.add_left_cancel_iff]
    split
    next heq => rw [heq, List.getElem?_concat_length, Option.getD_some]
    next hne =>
      congr 1
      rcases Nat.lt_or_gt_of_ne hne with hlt | hgt
      · rw [List.getElem?_append_left hlt]
      · rw [List.getElem?_eq_none (Nat.le_of_lt hgt), List.getElem?_eq_none]
        rw [List.length_append]
        exact hgt
  · have hnone (last : List UInt8) : (before ++ [last])[row]? = none :=
      List.getElem?_eq_none (by rw [List.length_append]; exact hgt)
    rw [if_neg, hnone, hnone]
    simp only [screenColumns] at *
    omega

theorem Extends.rowsTape_eq {byte : UInt8} {rows rows' : List (List UInt8)}
    (h : Extends byte rows rows') (colors : UInt8) : rowsTape colors rows'
      = Function.update (rowsTape colors rows) (endOf rows) ⟨byte, colors⟩ := by
  cases h with
  | inside before hlast => exact rowsTape_inside colors byte before hlast
  | @behind before last hlast =>
    have hroom : ([] : List UInt8).length < screenColumns := by decide
    have hnew := rowsTape_inside colors byte (before ++ [last]) hroom
    have hend : endOf (before ++ [last] ++ [[]]) = endOf (before ++ [last]) := by
      rw [endOf_concat, endOf_concat, hlast, List.length_append, List.length_singleton,
        Nat.succ_mul]
      rfl
    rwa [rowsTape_concat_nil, hend] at hnew

theorem Extends.endOf_eq {byte : UInt8} {rows rows' : List (List UInt8)}
    (h : Extends byte rows rows') : endOf rows' = endOf rows + 1
      ∧ 0 < (rows'.getLastD []).length ∧ (rows'.getLastD []).length ≤ screenColumns
      ∧ 0 < rows'.length := by
  cases h with
  | @inside before last hlast =>
    rw [endOf_concat, endOf_concat, List.getLastD_concat, List.length_append, List.length_append]
    exact ⟨rfl, Nat.succ_pos _, hlast, Nat.succ_pos _⟩
  | @behind before last hlast =>
    rw [endOf_concat, endOf_concat, List.getLastD_concat, hlast, List.length_append,
      List.length_append]
    exact ⟨by rw [List.length_singleton, List.length_singleton, Nat.succ_mul], Nat.succ_pos _,
      Nat.le_of_ble_eq_true rfl, Nat.succ_pos _⟩

/-! ### Writing a text -/

/-- A screen shows rows from the row `top` on, and is written to behind the last of them. -/
structure Shows (s : Screen) (top : ℕ) (rows : List (List UInt8)) : Prop where
  windows : s.Windows top (rowsTape s.colors rows)
  length_eq : rows.length = top + s.row + 1
  column_eq : s.column = (rows.getLastD []).length

theorem Shows.spot_eq {top : ℕ} {rows : List (List UInt8)} (h : s.Shows top rows) :
    s.spot top = endOf rows := by
  rw [spot, position, endOf, h.length_eq, h.column_eq, Nat.add_sub_cancel, Nat.add_mul,
    Nat.add_assoc]

theorem glyph_eq_shownByte {byte : UInt8} (h : byte ≠ 0x0A) : glyph byte = shownByte byte := by
  rw [glyph, shownByte, beq_eq_false_iff_ne.mpr h, Bool.or_false]

theorem shownByte_ne (byte : UInt8) : shownByte byte ≠ 0x0A ∧ shownByte byte ≠ 0x0D := by
  rw [shownByte]
  split
  next hshown => constructor <;> rintro rfl <;> exact absurd hshown (by decide)
  next => decide

/-- **One more byte** of a text, on the screen. -/
theorem Shows.writeByte? {top : ℕ} {text : List UInt8} (h : s.Shows top (textRows text))
    (byte : UInt8) : ∃ t top', s.writeByte? (glyph byte) = some t
      ∧ t.Shows top' (textRows (text ++ [byte])) ∧ t.colors = s.colors := by
  by_cases hfeed : byte = 0x0A
  · subst hfeed
    obtain ⟨top', hwindows, hrow⟩ := h.windows.newLine
    refine ⟨s.newLine, top', rfl, ?_, colors_newLine s⟩
    rw [textRows_concat_feed]
    refine ⟨?_, ?_, ?_⟩
    · rwa [colors_newLine, rowsTape_concat_nil]
    · rw [List.length_append, h.length_eq, hrow, List.length_singleton]
    · rw [column_newLine, List.getLastD_concat, List.length_nil]
  · have hextends := extends_textRows hfeed text
    obtain ⟨hend, hpos, hle, hlength⟩ := hextends.endOf_eq
    obtain ⟨t, top', hwrite, hwindows, hspot, hcolumn, hcolors⟩ :=
      h.windows.writeByte? (shownByte_ne byte).1 (shownByte_ne byte).2
    refine ⟨t, top', by rw [glyph_eq_shownByte hfeed, hwrite], ?_, hcolors⟩
    have hcolumn' := hwindows.column_le
    rw [h.spot_eq, ← hextends.rowsTape_eq, ← hcolors] at hwindows
    rw [h.spot_eq, ← hend, spot, position, endOf] at hspot
    refine ⟨hwindows, ?_, ?_⟩ <;> simp only [screenColumns] at * <;> omega

theorem Shows.write? {top : ℕ} {text : List UInt8} (h : s.Shows top (textRows text))
    (bytes : List UInt8) : ∃ t top', s.write? bytes = some t
      ∧ t.Shows top' (textRows (text ++ bytes)) ∧ t.colors = s.colors
      ∧ t.shownCursor = some t.cursorPosition := by
  have hfold : ∃ t top', bytes.foldlM (fun s byte => Screen.writeByte? s (glyph byte)) s = some t
      ∧ t.Shows top' (textRows (text ++ bytes)) ∧ t.colors = s.colors := by
    induction bytes generalizing s top text with
    | nil => exact ⟨s, top, rfl, by rwa [List.append_nil], rfl⟩
    | cons byte bytes ih =>
      obtain ⟨t, top', hwrite, hshows, hcolors⟩ := h.writeByte? byte
      obtain ⟨u, top'', hwrites, hshows', hcolors'⟩ := ih hshows
      rw [List.append_assoc] at hshows'
      exact ⟨u, top'', by rw [List.foldlM_cons, hwrite]; exact hwrites, hshows',
        hcolors'.trans hcolors⟩
  obtain ⟨t, top', hwrites, hshows, hcolors⟩ := hfold
  refine ⟨t.showCursor, top', by rw [Screen.write?, hwrites, Option.map_some], ?_, hcolors, rfl⟩
  exact ⟨hshows.windows.showCursor, hshows.length_eq, hshows.column_eq⟩

theorem shows_clear (start : Screen) : start.clear.Shows 0 (textRows []) := by
  have hrow : 0 < screenRows := by decide
  rw [textRows_nil]
  refine ⟨⟨fun place => ?_, hrow, Nat.zero_le _, .inl rfl⟩, rfl, rfl⟩
  rw [← List.nil_append [[]], rowsTape_concat_nil]
  by_cases hplace : place < screenRows * screenColumns
  · rw [tape_of_lt hplace]
    exact Vector.getElem_replicate hplace
  · rw [tape_of_le (Nat.le_of_not_lt hplace)]
    rfl

/-- **A text in pieces** is shown like the whole text. -/
theorem Shows.run? {top : ℕ} {text : List UInt8} (h : s.Shows top (textRows text))
    (hcursor : s.shownCursor = some s.cursorPosition) (calls : List (List UInt8)) :
    ∃ t top', s.run? (calls.map .write) = some t ∧ t.Shows top' (textRows (text ++ calls.flatten))
      ∧ t.colors = s.colors ∧ t.shownCursor = some t.cursorPosition := by
  induction calls generalizing s top text with
  | nil => exact ⟨s, top, rfl, by rwa [List.flatten_nil, List.append_nil], rfl, hcursor⟩
  | cons bytes calls ih =>
    obtain ⟨t, top', hwrite, hshows, hcolors, hcursor'⟩ := h.write? bytes
    obtain ⟨u, top'', hrun, hshows', hcolors', hcursor''⟩ := ih hshows hcursor'
    rw [List.append_assoc] at hshows'
    refine ⟨u, top'', ?_, by rwa [List.flatten_cons], hcolors'.trans hcolors, hcursor''⟩
    rw [List.map_cons, run?_cons, show Action.perform? s (.write bytes) = some t from hwrite]
    exact hrun

/-! ### What is shown -/

theorem getElem?_rowCells {row column : ℕ} (hrow : row < screenRows)
    (hcolumn : column < screenColumns) :
    (s.rowCells row)[column]? = some (s.tape (row * screenColumns + column)) := by
  have hplace : row * screenColumns + column < screenRows * screenColumns := by
    simp only [screenRows, screenColumns] at *
    omega
  rw [rowCells, List.getElem?_take_of_lt hcolumn, List.getElem?_drop, tape_of_lt hplace,
    Vector.getElem?_toList, Vector.getElem?_eq_getElem hplace]

theorem getElem?_rowOf (colors : UInt8) (row : List UInt8) {column : ℕ}
    (hcolumn : column < screenColumns) :
    (rowOf colors row)[column]? = some ⟨row[column]?.getD 0x20, colors⟩ := by
  rw [rowOf, List.getElem?_map, List.getElem?_append]
  split
  next hlt => rw [List.getElem?_eq_getElem hlt, Option.getD_some, Option.map_some]
  next hge =>
    rw [List.getElem?_replicate, if_pos (by omega), List.getElem?_eq_none (by omega),
      Option.getD_none, Option.map_some]

theorem length_rowCells {row : ℕ} (hrow : row < screenRows) :
    (s.rowCells row).length = screenColumns := by
  rw [rowCells, List.length_take, List.length_drop, Vector.length_toList]
  simp only [screenRows, screenColumns] at *
  omega

theorem length_rowOf (colors : UInt8) {row : List UInt8} (h : row.length ≤ screenColumns) :
    (rowOf colors row).length = screenColumns := by
  rw [rowOf, List.length_map, List.length_append, List.length_replicate]
  omega

/-- The rows on a screen are the last ones of those that it shows. -/
theorem Shows.rowCells_eq {top row : ℕ} {rows : List (List UInt8)} (h : s.Shows top rows)
    (hrows : ∀ row ∈ rows, row.length ≤ screenColumns) (hrow : row < screenRows) :
    s.rowCells row = rowOf s.colors ((lastRows rows).getD row []) := by
  have htop : rows.length - screenRows = top := by
    have hbelow := h.windows.row_lt
    have hlength := h.length_eq
    rcases h.windows.lost with rfl | hlast <;> omega
  have hwidth : ((lastRows rows).getD row []).length ≤ screenColumns := by
    rw [List.getD_eq_getElem?_getD, lastRows, List.getElem?_drop]
    cases hfound : rows[rows.length - screenRows + row]? with
    | none => exact Nat.zero_le _
    | some found => exact hrows found (List.mem_of_getElem? hfound)
  refine List.ext_getElem? fun column => ?_
  by_cases hcolumn : column < screenColumns
  · have hdiv : (top * screenColumns + (row * screenColumns + column)) / screenColumns
        = top + row := by
      simp only [screenColumns] at *
      omega
    have hmod : (top * screenColumns + (row * screenColumns + column)) % screenColumns
        = column := by
      simp only [screenColumns] at *
      omega
    rw [getElem?_rowCells hrow hcolumn, getElem?_rowOf _ _ hcolumn, h.windows.tape_eq, rowsTape,
      hdiv, hmod, List.getD_eq_getElem?_getD, lastRows, List.getElem?_drop, htop]
  · rw [List.getElem?_eq_none, List.getElem?_eq_none]
    · rw [length_rowOf _ hwidth]
      exact Nat.le_of_not_lt hcolumn
    · rw [length_rowCells hrow]
      exact Nat.le_of_not_lt hcolumn

/-- **The screen is a window on the text.** Whatever is written on a cleared screen, in whatever
pieces, the screen shows the last 25 rows of the text, or all of them from the top if there are
fewer, with blanks behind each; and the cursor is behind the last character of the last row. -/
theorem shows_lastRows (start : Screen) (calls : List (List UInt8)) :
    ∃ s, start.clear.run? (calls.map .write) = some s
      ∧ (∀ row < screenRows, s.rowCells row
        = rowOf start.colors ((lastRows (textRows calls.flatten)).getD row []))
      ∧ s.row + 1 = (lastRows (textRows calls.flatten)).length
      ∧ s.column = ((textRows calls.flatten).getLastD []).length
      ∧ s.shownCursor = some s.cursorPosition := by
  obtain ⟨s, top, hrun, hshows, hcolors, hcursor⟩ := (shows_clear start).run? rfl calls
  rw [List.nil_append] at hshows
  have hcolors : s.colors = start.colors := hcolors
  refine ⟨s, hrun, fun row hrow => ?_, ?_, hshows.column_eq, hcursor⟩
  · rw [← hcolors]
    exact hshows.rowCells_eq (fun row => length_le_of_mem_textRows) hrow
  · have hbelow := hshows.windows.row_lt
    have hlength := hshows.length_eq
    rw [lastRows, List.length_drop]
    rcases hshows.windows.lost with rfl | hlast <;> omega

end Screen

end PocketKernel
