import Chronograph.Proofs.Code.LineEnds
import Chronograph.Proofs.Decimal.Places
import Chronograph.Proofs.Timing.Shares
import Chronograph.Timing.Table

/-!
# The lines of a table

A table is meant to have a line for each row, and all lines but that of the total are
meant to be of one width.  Whether that is so is decided by two things only
(`table_fixed_width`).  A name is printed as it is, so each newline in it breaks the
line of its row.  And a column of numbers has a least width, not a greatest: shares
always fit theirs, but a mean does not as soon as it is rounded to a hundred seconds.
-/

namespace Chronograph

/-! ## The lines of a table -/

/-- The line above the rows. -/
def headerLine (width : ℕ) : List Char :=
  padRight width "operator".toList ++ [' ', ' '] ++ padLeft 12 "mean_us".toList ++ [' ', ' ']
    ++ padLeft 7 "share".toList

/-- The header and the rule below it. -/
def topLines (width : ℕ) : List (List Char) := [headerLine width, List.replicate (width + 23) '-']

/-- What stands behind the name of a row: its mean and its share. -/
def Row.columns (r : Row) : List Char :=
  [' ', ' '] ++ timeCell r.mean.toFloat ++ [' ', ' ']
    ++ padLeft 6 (placesText 2 r.percent.toModel.unpack) ++ ['%']

/-- The line of a row. -/
def Row.line (width : ℕ) (r : Row) : List Char := padRight width r.name.toList ++ r.columns

/-- The line below the rows. -/
def totalLine (rows : List Row) (calls : ℕ) : List Char :=
  padRight (nameWidth rows) "total".toList ++ [' ', ' '] ++ timeCell (sumOf (rows.map (·.mean)))
    ++ "  (".toList ++ digitsOf calls ++ " calls)".toList

theorem tableLines_eq (rows : List Row) (calls : ℕ) :
    tableLines rows calls =
      topLines (nameWidth rows) ++ rows.map (Row.line (nameWidth rows))
        ++ [totalLine rows calls] := by
  have hline : Row.line (nameWidth rows) = fun r => padRight (nameWidth rows) r.name.toList
      ++ [' ', ' '] ++ timeCell r.mean.toFloat ++ [' ', ' ']
      ++ padLeft 6 (placesText 2 r.percent.toModel.unpack) ++ ['%'] := by
    funext r
    simp only [Row.line, Row.columns, List.append_assoc]
  rw [hline]
  rfl

theorem length_padRight (width : ℕ) (s : List Char) :
    (padRight width s).length = max width s.length := by
  rw [padRight, List.length_append, List.length_replicate]
  omega

theorem length_padLeft (width : ℕ) (s : List Char) :
    (padLeft width s).length = max width s.length := by
  rw [padLeft, List.length_append, List.length_replicate]
  omega

/-! ### The width of names -/

theorem foldl_max_eq {α : Type} (f : α → ℕ) (xs : List α) (least : ℕ) :
    xs.foldl (fun w x => max w (f x)) least = max least ((xs.map f).max?.getD 0) := by
  induction xs generalizing least with
  | nil => simp
  | cons x xs ih =>
      rw [List.foldl_cons, ih, List.map_cons, List.max?_cons]
      cases (xs.map f).max? with
      | none => simp
      | some m => simp [max_assoc]

/-- How wide a table is meant to be. -/
def tableWidth (rows : List Row) : ℕ :=
  max "operator".length ((rows.map fun r => r.name.length).max?.getD 0) + 23

theorem nameWidth_add (rows : List Row) : nameWidth rows + 23 = tableWidth rows := by
  rw [nameWidth, foldl_max_eq, tableWidth]
  simp only [String.length_toList]

theorem length_name_le {rows : List Row} {r : Row} (h : r ∈ rows) :
    r.name.toList.length ≤ nameWidth rows := by
  have hmem : r.name.toList.length ∈ rows.map fun r => r.name.toList.length :=
    List.mem_map_of_mem h
  rw [nameWidth, foldl_max_eq]
  exact le_max_of_le_right (List.le_max?_getD_of_mem hmem)

theorem eight_le_nameWidth (rows : List Row) : 8 ≤ nameWidth rows := by
  rw [nameWidth, foldl_max_eq]
  exact le_max_left 8 _

/-! ### The lines one by one -/

theorem length_of_mem_topLines {rows : List Row} {line : List Char}
    (h : line ∈ topLines (nameWidth rows)) : line.length = tableWidth rows := by
  have hwidth := eight_le_nameWidth rows
  have hname : "operator".toList.length = 8 := by decide
  have hmean : "mean_us".toList.length = 7 := by decide
  have hshare : "share".toList.length = 5 := by decide
  rw [← nameWidth_add]
  rcases List.mem_cons.mp h with rfl | h
  · simp only [headerLine, List.length_append, length_padRight, length_padLeft, List.length_cons,
      List.length_nil, hname, hmean, hshare]
    omega
  · rw [List.mem_singleton.mp h, List.length_replicate]

/-- A finite mean that is less than a hundred seconds when rounded to three places. -/
def Row.MeanFits (r : Row) : Prop :=
  ∃ q, exactValue? r.mean.toFloat.toModel.unpack = some q ∧ q < 99999999.9995

/-- **The line of a row** is as wide as the others if its mean fits, and wider otherwise;
its share always fits. -/
theorem Row.Sound.length_line {r : Row} (hr : r.Sound) {width : ℕ}
    (hname : r.name.toList.length ≤ width) :
    width + 23 ≤ (r.line width).length ∧
      ((r.line width).length = width + 23 ↔ r.MeanFits) := by
  obtain ⟨⟨q, hmean, hq⟩, p, ⟨hpercent, hp⟩, hle⟩ := Row.sound_iff.mp hr
  have hshare : (placesText 2 r.percent.toModel.unpack).length ≤ 6 := by
    rw [length_placesText_le_iff hpercent hp (by norm_num)]
    refine hle.trans_lt ?_
    norm_num
  have hfits : (placesText 3 r.mean.toFloat.toModel.unpack).length ≤ 12 ↔ r.MeanFits := by
    rw [length_placesText_le_iff hmean hq (by norm_num), MeanFits, hmean]
    have hlimit : ((10 ^ (12 - 1) - 1 / 2) / 10 ^ 3 : ℚ) = 99999999.9995 := by norm_num
    rw [hlimit]
    constructor
    · intro hlt
      exact ⟨q, rfl, hlt⟩
    · rintro ⟨q', hsame, hlt⟩
      exact Option.some.inj hsame ▸ hlt
  have hlength : (r.line width).length =
      width + 11 + max 12 (placesText 3 r.mean.toFloat.toModel.unpack).length := by
    simp only [line, columns, timeCell, List.length_append, length_padRight, length_padLeft,
      List.length_cons, List.length_nil]
    omega
  rw [hlength, ← hfits]
  omega

theorem newline_not_mem_padRight {width : ℕ} {s : List Char} :
    '\n' ∉ padRight width s ↔ '\n' ∉ s := by
  simp [padRight]

theorem newline_not_mem_padLeft {width : ℕ} {s : List Char} :
    '\n' ∉ padLeft width s ↔ '\n' ∉ s := by
  simp [padLeft]

theorem plainLine_of_mem_topLines {width : ℕ} {line : List Char} (h : line ∈ topLines width) :
    PlainLine line := by
  rcases List.mem_cons.mp h with rfl | h
  · refine plainLine_append (c := 'e') ?_ (by decide) (by decide) (by decide)
    simp only [List.mem_append, not_or, newline_not_mem_padRight]
    decide
  · rw [List.mem_singleton.mp h]
    have hrule : ∀ c ∈ List.replicate (width + 23) '-', c = '-' :=
      fun c hc => (List.mem_replicate.mp hc).2
    constructor
    · intro hmem
      exact absurd (hrule _ hmem) (by decide)
    · intro hlast
      exact absurd (hrule _ (List.mem_of_getLast? hlast)) (by decide)

theorem plainLine_totalLine (rows : List Row) (calls : ℕ) : PlainLine (totalLine rows calls) := by
  refine plainLine_append (c := ')') ?_ (by decide) (by decide) (by decide)
  have hcalls : '\n' ∉ digitsOf calls := fun h =>
    absurd (allDigits_digitsOf calls _ h) (by decide)
  simp only [timeCell, List.mem_append, not_or, newline_not_mem_padRight, newline_not_mem_padLeft,
    newline_not_mem_placesText, hcalls]
  decide

theorem newline_not_mem_columns (r : Row) : '\n' ∉ r.columns := by
  simp only [Row.columns, timeCell, List.mem_append, not_or, newline_not_mem_padLeft,
    newline_not_mem_placesText]
  decide

/-- The newlines in the line of a row are those of its name. -/
theorem count_newline_line (width : ℕ) (r : Row) :
    (r.line width).count '\n' = r.name.toList.count '\n' := by
  rw [Row.line, padRight, List.count_append, List.count_append, List.count_replicate,
    if_neg (by decide), List.count_eq_zero_of_not_mem (newline_not_mem_columns r)]
  rfl

theorem plainLine_line (width : ℕ) {r : Row} (h : '\n' ∉ r.name.toList) :
    PlainLine (r.line width) := by
  refine plainLine_append (newline_not_mem_padRight.mpr h) (newline_not_mem_columns r) ?_
    (by decide : '%' ≠ '\r')
  rw [Row.columns, List.getLast?_append]
  rfl

/-! ## All lines -/

theorem toList_table (rows : List Row) (calls : ℕ) :
    (table rows calls).toList = (tableLines rows calls).flatMap fun line => line ++ ['\n'] :=
  String.toList_ofList

/-- The first two lines of a table are read as they were written. -/
theorem exists_commentLines_table (rows : List Row) (calls : ℕ) :
    ∃ rest, commentLines (table rows calls).toList = topLines (nameWidth rows) ++ rest := by
  rw [toList_table, tableLines_eq, List.append_assoc, List.flatMap_append]
  exact ⟨_, commentLines_flatMap (fun line => plainLine_of_mem_topLines) _⟩

/-- If no name breaks a line, all lines of a table are read as they were written. -/
theorem commentLines_table {rows : List Row} (calls : ℕ)
    (h : ∀ r ∈ rows, '\n' ∉ r.name.toList) :
    commentLines (table rows calls).toList = tableLines rows calls := by
  have hplain : ∀ line ∈ tableLines rows calls, PlainLine line := by
    rw [tableLines_eq]
    intro line hline
    rcases List.mem_append.mp hline with hline | hline
    · rcases List.mem_append.mp hline with hline | hline
      · exact plainLine_of_mem_topLines hline
      · obtain ⟨r, hr, rfl⟩ := List.mem_map.mp hline
        exact plainLine_line _ (h r hr)
    · rw [List.mem_singleton.mp hline]
      exact plainLine_totalLine rows calls
  have hlines := commentLines_flatMap hplain []
  rw [List.append_nil] at hlines
  rw [toList_table, hlines]
  exact List.append_nil _

/-- Lines that are written have one newline each, and those in them. -/
theorem count_flatMap_newline (lines : List (List Char)) :
    (lines.flatMap fun line => line ++ ['\n']).count '\n' =
      lines.length + (lines.map (List.count '\n')).sum := by
  induction lines with
  | nil => rfl
  | cons line lines ih =>
      rw [List.flatMap_cons, List.count_append, List.count_append, ih, List.count_singleton_self,
        List.map_cons, List.sum_cons, List.length_cons]
      omega

/-- **The number of lines**: one for each row, three more, and one more for each newline
in a name. -/
theorem length_commentLines_table (rows : List Row) (calls : ℕ) :
    (commentLines (table rows calls).toList).length =
      rows.length + 3 + (rows.map fun r => r.name.toList.count '\n').sum := by
  have hends : EndsLine (table rows calls).toList := by
    rw [toList_table]
    exact endsLine_flatMap fun line _ => endsLine_append_newline line
  have hlines : (tableLines rows calls).length = rows.length + 3 := by
    rw [tableLines_eq]
    simp only [topLines, List.length_append, List.length_map, List.length_cons, List.length_nil]
    omega
  have htop : (topLines (nameWidth rows)).map (List.count '\n') = [0, 0] :=
    List.map_congr_left fun line hline =>
      List.count_eq_zero_of_not_mem (plainLine_of_mem_topLines hline).1
  have hrows : (rows.map (Row.line (nameWidth rows))).map (List.count '\n') =
      rows.map fun r => r.name.toList.count '\n' := by
    rw [List.map_map]
    exact List.map_congr_left fun r _ => count_newline_line (nameWidth rows) r
  rw [length_commentLines hends, toList_table, count_flatMap_newline, hlines, tableLines_eq,
    List.map_append, List.map_append, htop, hrows, List.map_singleton,
    List.count_eq_zero_of_not_mem (plainLine_totalLine rows calls).1]
  simp

/-- The names of a table break no line if there are no more lines than there should be. -/
theorem length_commentLines_table_iff (rows : List Row) (calls : ℕ) :
    (commentLines (table rows calls).toList).length = rows.length + 3 ↔
      ∀ r ∈ rows, '\n' ∉ r.name.toList := by
  rw [length_commentLines_table, Nat.add_eq_left, List.sum_eq_zero_iff, List.forall_mem_map]
  exact forall₂_congr fun r _ => List.count_eq_zero

/-- All lines but the last, as they are written. -/
theorem take_tableLines (rows : List Row) (calls : ℕ) :
    (tableLines rows calls).take (rows.length + 2) =
      topLines (nameWidth rows) ++ rows.map (Row.line (nameWidth rows)) := by
  rw [tableLines_eq]
  refine List.take_left' ?_
  simp [topLines]

/-- The line of one of the rows: its name, the other columns, and how wide that is. -/
theorem Row.Sound.line_of_mem {rows : List Row} {r : Row} (hr : r.Sound) (hmem : r ∈ rows) :
    r.name.toList <+: r.line (nameWidth rows) ∧
      tableWidth rows ≤ (r.line (nameWidth rows)).length ∧
      ((r.line (nameWidth rows)).length = tableWidth rows ↔ r.MeanFits) := by
  refine ⟨?_, nameWidth_add rows ▸ hr.length_line (length_name_le hmem)⟩
  rw [line, padRight, List.append_assoc]
  exact List.prefix_append _ _

/-- All lines but the last are of one width if all means fit. -/
theorem forall_length_tableLines_iff {rows : List Row} (calls : ℕ) (hrows : ∀ r ∈ rows, r.Sound) :
    (∀ line ∈ (tableLines rows calls).take (rows.length + 2), line.length = tableWidth rows) ↔
      ∀ r ∈ rows, r.MeanFits := by
  rw [take_tableLines]
  constructor
  · intro h r hr
    have hline := h _ (List.mem_append_right _ (List.mem_map_of_mem hr))
    exact ((hrows r hr).line_of_mem hr).2.2.mp hline
  · intro h line hline
    rcases List.mem_append.mp hline with hline | hline
    · exact length_of_mem_topLines hline
    · obtain ⟨r, hr, rfl⟩ := List.mem_map.mp hline
      exact ((hrows r hr).line_of_mem hr).2.2.mpr (h r hr)

/-- **What a table looks like.**  It has a line for each row and three more, and one more
for each newline in a name.  Its header and its rule are as wide as it is meant to be.  If
no name has a newline, each row has its line, in order and with its name in front, and that
line is as wide as the table or, if the mean does not fit its column, wider.  So a table is
of one width, with one line for each row, exactly if no name has a newline and all means
fit. -/
theorem table_fixed_width {rows : List Row} (calls : ℕ) (hrows : ∀ r ∈ rows, r.Sound) :
    let lines := commentLines (table rows calls).toList
    lines.length = rows.length + 3 + (rows.map fun r => r.name.toList.count '\n').sum ∧
    (lines.take 2).map List.length = [tableWidth rows, tableWidth rows] ∧
    ((∀ r ∈ rows, '\n' ∉ r.name.toList) →
      ((lines.drop 2).take rows.length).Forall₂ (fun line r => r.name.toList <+: line ∧
        tableWidth rows ≤ line.length ∧ (line.length = tableWidth rows ↔ r.MeanFits)) rows) ∧
    ((lines.length = rows.length + 3 ∧
        ∀ line ∈ lines.take (rows.length + 2), line.length = tableWidth rows) ↔
      ∀ r ∈ rows, '\n' ∉ r.name.toList ∧ r.MeanFits) := by
  refine ⟨length_commentLines_table rows calls, ?_, ?_, ?_⟩
  · obtain ⟨rest, hrest⟩ := exists_commentLines_table rows calls
    have htwo : (topLines (nameWidth rows) ++ rest).take 2 = topLines (nameWidth rows) := rfl
    have hwidths : (topLines (nameWidth rows)).map List.length =
        (topLines (nameWidth rows)).map fun _ => tableWidth rows :=
      List.map_congr_left fun line => length_of_mem_topLines
    rw [hrest, htwo, hwidths]
    rfl
  · intro hnames
    have hmiddle : ((tableLines rows calls).drop 2).take rows.length =
        rows.map (Row.line (nameWidth rows)) := by
      rw [List.take_drop, Nat.add_comm, take_tableLines]
      rfl
    rw [commentLines_table calls hnames, hmiddle, List.forall₂_map_left_iff, List.forall₂_same]
    exact fun r hr => (hrows r hr).line_of_mem hr
  · rw [length_commentLines_table_iff, forall₂_and]
    refine and_congr_right ?_
    intro hnames
    rw [commentLines_table calls hnames]
    exact forall_length_tableLines_iff calls hrows

/-- An operator with a newline in its name. -/
def tornAverages : Run := .ofList [("a\nb", .ofNat 1)]

/-- An operator that takes a hundred seconds. -/
def slowAverages : Run := .ofList [("conv", .ofNat 100000000)]

/-- The summary of the one has a line too many, that of the other a line too wide. -/
theorem table_fixed_width_torn :
    (∀ r ∈ summaryRows tornAverages, r.Sound) ∧ (∀ r ∈ summaryRows slowAverages, r.Sound) ∧
      (commentLines (table (summaryRows tornAverages) 1).toList).length = 5 ∧
      ∃ line ∈ (commentLines (table (summaryRows slowAverages) 1).toList).drop 2,
        tableWidth (summaryRows slowAverages) < line.length := by
  have htorn : ∀ r ∈ summaryRows tornAverages, r.Sound := sound_summaryRows (by decide +kernel)
  have hslow : ∀ r ∈ summaryRows slowAverages, r.Sound := sound_summaryRows (by decide +kernel)
  have htornRows : summaryRows tornAverages =
      [rowOf (sumOf tornAverages.values) ("a\nb", .ofNat 1)] := List.mergeSort_singleton _
  have hslowRows : summaryRows slowAverages =
      [rowOf (sumOf slowAverages.values) ("conv", .ofNat 100000000)] := List.mergeSort_singleton _
  refine ⟨htorn, hslow, ?_, ?_⟩
  · rw [(table_fixed_width 1 htorn).1, htornRows]
    rfl
  · have hnames : ∀ r ∈ summaryRows slowAverages, '\n' ∉ r.name.toList := by
      rw [hslowRows]
      intro r hr
      rw [List.mem_singleton.mp hr]
      decide
    have hlines := (table_fixed_width 1 hslow).2.2.1 hnames
    rw [hslowRows] at hlines ⊢
    obtain ⟨line, rest, ⟨-, hle, hwidth⟩, -, hfirst⟩ := List.forall₂_cons_right_iff.mp hlines
    have hmem : line ∈ (commentLines (table _ 1).toList).drop 2 :=
      List.mem_of_mem_take (hfirst ▸ List.mem_cons_self)
    refine ⟨line, hmem, lt_of_le_of_ne hle fun heq => ?_⟩
    obtain ⟨q, hq, hlt⟩ := hwidth.mp heq.symm
    have hvalue := (hasValue_nearestFloat (n := 100000000) (by norm_num)).isAmount.1
    obtain rfl : ((100000000 : ℕ) : ℚ) = q := Option.some.inj (hvalue.symm.trans hq)
    norm_num at hlt

end Chronograph
