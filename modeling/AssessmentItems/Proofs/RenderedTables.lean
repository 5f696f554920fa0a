import AssessmentItems.Compiler
import AssessmentItems.Proofs.Elements
import AssessmentItems.Proofs.ReadRecords

/-!
Tables read back from their markup. A reader that knows only the elements of a table, each in its
place, finds in what is rendered the caption, the columns and the rows that were authored. All
rows are as long as there are columns, since no other table is accepted.
-/
namespace AssessmentItems.RenderedTables

open Text Escaping Elements Decoding Results ReadRecords

section

variable {α : Type}

def readNamed (name : Text) (readContent : List Tree → Option α) : Tree → Option α
  | .element tag content => if tag = ⟨name, []⟩ then readContent content else none
  | .character _ => none

theorem readNamed_element (name : Text) (readContent : List Tree → Option α)
    (content : List Tree) :
    readNamed name readContent (.element ⟨name, []⟩ content) = readContent content :=
  if_pos rfl

end

def readText (content : List Tree) : Option Text :=
  if (elements content).isEmpty then some (innerText content) else none

def readRow (cell : Text) : Tree → Option (List Text) :=
  readNamed "tr" (List.mapM (readNamed cell readText))

def readHead : Tree → Option (List Text) :=
  readNamed "thead" fun
    | [row] => readRow "th" row
    | _ => none

def readBody : Tree → Option (List (List Text)) := readNamed "tbody" (List.mapM (readRow "td"))

def readParts : List Tree → Option DataTable
  | [caption, head, body] => do
    some ⟨some (← readNamed "caption" readText caption), ← readHead head, ← readBody body⟩
  | [head, body] => do some ⟨none, ← readHead head, ← readBody body⟩
  | _ => none

/-- Reads a table from its markup, if there is nothing else in it. -/
def readTable? (t : Text) : Option DataTable := do
  match ← read? t with
  | [table] => readNamed "table" readParts table
  | _ => none

def cellTree (name content : Text) : Tree :=
  .element ⟨name, []⟩ ((escapeText content).map .character)

def rowTree (cell : Text) (cells : List Text) : Tree :=
  .element ⟨"tr", []⟩ (cells.map (cellTree cell))

def tableTrees (w : DataTable) : List Tree :=
  (w.caption.map (cellTree "caption")).toList ++
    [.element ⟨"thead", []⟩ [rowTree "th" w.columns],
      .element ⟨"tbody", []⟩ (w.rows.map (rowTree "td"))]

theorem Reads.named {name t : Text} (hname : IsName name) {trees : List Tree} (h : Reads t trees) :
    Reads (startTag ⟨name, []⟩ ++ t ++ endTag name) [.element ⟨name, []⟩ trees] :=
  h.element ⟨hname, fun _ hentry => absurd hentry List.not_mem_nil⟩

theorem Reads.map {α : Type} {f : α → Text} {g : α → Tree} {as : List α}
    (h : ∀ a ∈ as, Reads (f a) [g a]) : Reads (as.flatMap f) (as.map g) := by
  rw [List.map_eq_flatMap]
  exact Reads.flatMap h

theorem reads_cell {name : Text} (hname : IsName name) (content : Text) :
    Reads (DataTable.cellMarkup name content) [cellTree name content] := by
  have htext : DataTable.cellMarkup name content =
      startTag ⟨name, []⟩ ++ escapeText content ++ endTag name := by
    simp [DataTable.cellMarkup, startTag, openText, endTag]
  rw [htext]
  exact Reads.named hname (reads_characters (not_mem_escapeText content))

theorem reads_row {cell : Text} (hname : IsName cell) (cells : List Text) :
    Reads (DataTable.rowMarkup cell cells) [rowTree cell cells] := by
  have hopen : ("<tr>" : Text) = startTag ⟨"tr", []⟩ := by decide
  have hclose : ("</tr>" : Text) = endTag "tr" := by decide
  rw [DataTable.rowMarkup, hopen, hclose]
  exact Reads.named (by decide) (Reads.map fun content _ => reads_cell hname content)

theorem reads_caption (w : DataTable) :
    Reads w.captionMarkup (w.caption.map (cellTree "caption")).toList := by
  unfold DataTable.captionMarkup
  cases w.caption with
  | none => exact reads_nil
  | some caption => exact reads_cell (by decide) caption

theorem reads_markup (w : DataTable) :
    Reads w.markup [.element ⟨"table", []⟩ (tableTrees w)] := by
  have hhead : Reads (startTag ⟨"thead", []⟩ ++ DataTable.rowMarkup "th" w.columns ++
      endTag "thead") [.element ⟨"thead", []⟩ [rowTree "th" w.columns]] :=
    Reads.named (by decide) (reads_row (by decide) w.columns)
  have hrows : Reads (w.rows.flatMap (DataTable.rowMarkup "td")) (w.rows.map (rowTree "td")) :=
    Reads.map fun row _ => reads_row (by decide) row
  have hbody : Reads (startTag ⟨"tbody", []⟩ ++ w.rows.flatMap (DataTable.rowMarkup "td") ++
      endTag "tbody") [.element ⟨"tbody", []⟩ (w.rows.map (rowTree "td"))] :=
    Reads.named (by decide) hrows
  have htable : ("<table>" : Text) = startTag ⟨"table", []⟩ := by decide
  have hthead : ("<thead>" : Text) = startTag ⟨"thead", []⟩ := by decide
  have hbetween : ("</thead><tbody>" : Text) = endTag "thead" ++ startTag ⟨"tbody", []⟩ := by
    decide
  have hend : ("</tbody></table>" : Text) = endTag "tbody" ++ endTag "table" := by decide
  have htext : w.markup = startTag ⟨"table", []⟩ ++ (w.captionMarkup ++
      (startTag ⟨"thead", []⟩ ++ DataTable.rowMarkup "th" w.columns ++ endTag "thead" ++
        (startTag ⟨"tbody", []⟩ ++ w.rows.flatMap (DataTable.rowMarkup "td") ++ endTag "tbody"))) ++
          endTag "table" := by
    unfold DataTable.markup
    simp only [htable, hthead, hbetween, hend, List.append_assoc]
  rw [htext]
  exact Reads.named (by decide) ((reads_caption w).append (hhead.append hbody))

theorem readCell_cellTree (name content : Text) :
    readNamed name readText (cellTree name content) = some content := by
  have helements : elements ((escapeText content).map .character) = [] := by
    simp [elements]
  have hcharacters : characters ((escapeText content).map .character) = escapeText content := by
    simp [characters, List.filterMap_map]
  rw [cellTree, readNamed_element, readText, helements, innerText, hcharacters,
    unescape_escapeText]
  rfl

theorem readRow_rowTree (cell : Text) (cells : List Text) :
    readRow cell (rowTree cell cells) = some cells := by
  rw [readRow, rowTree, readNamed_element]
  exact mapM_map_of_some _ _ (readCell_cellTree cell) cells

/-- What is rendered is read back as the table. -/
theorem readTable?_markup (w : DataTable) : readTable? w.markup = some w := by
  have hhead : readHead (.element ⟨"thead", []⟩ [rowTree "th" w.columns]) = some w.columns :=
    (readNamed_element _ _ _).trans (readRow_rowTree "th" w.columns)
  have hbody : readBody (.element ⟨"tbody", []⟩ (w.rows.map (rowTree "td"))) = some w.rows :=
    (readNamed_element _ _ _).trans (mapM_map_of_some _ _ (readRow_rowTree "td") w.rows)
  have hparts : readParts (tableTrees w) = some w := by
    obtain ⟨caption, columns, rows⟩ := w
    cases caption with
    | none =>
      unfold tableTrees
      dsimp only [Option.map_none, Option.toList_none, List.nil_append, readParts]
      rw [hhead, hbody]
      rfl
    | some caption =>
      unfold tableTrees
      dsimp only [Option.map_some, Option.toList_some, List.singleton_append, readParts]
      rw [readCell_cellTree, hhead, hbody]
      rfl
  rw [readTable?, (reads_markup w).read?]
  change readNamed "table" readParts (.element ⟨"table", []⟩ (tableTrees w)) = some w
  rw [readNamed_element, hparts]

/-- The table that parameters say; a caption may be left out or null. -/
structure Says (parameters : Table Json) (w : DataTable) : Prop where
  caption : Table.find? "caption" parameters = w.caption.map .string ∨
    w.caption = none ∧ Table.find? "caption" parameters = some .null
  columns : Table.find? "columns" parameters = some (.array (w.columns.map .string))
  rows : Table.find? "rows" parameters =
    some (.array (w.rows.map fun row => .array (row.map .string)))

theorem text_eq_ok {v : Json} {t : Text} : text v = .ok t ↔ v = .string t := by
  cases v <;> simp [text, refuse]

theorem list_eq_ok {α : Type} {decode : Decoder α} {encode : α → Json}
    (h : ∀ v a, decode v = .ok a → v = encode a) {v : Json} {as : List α}
    (hv : list decode v = .ok as) : v = .array (as.map encode) := by
  cases v with
  | array elements =>
    simp only [list] at hv
    refine congrArg Json.array ?_
    induction elements generalizing as with
    | nil =>
      obtain rfl := Except.ok.inj hv
      rfl
    | cons w elements ih =>
      rw [List.mapM_cons] at hv
      obtain ⟨a, ha, hv⟩ := bind_eq_ok.1 hv
      obtain ⟨rest, hrest, hv⟩ := bind_eq_ok.1 hv
      obtain rfl := Except.ok.inj hv
      rw [List.map_cons, ← h w a ha, ← ih hrest]
  | _ => cases hv

theorem raggedRow?_eq_none {columns index : ℕ} {rows : List (List Text)} :
    DataTable.raggedRow? columns index rows = none ↔ ∀ row ∈ rows, row.length = columns := by
  induction rows generalizing index with
  | nil => simp [DataTable.raggedRow?]
  | cons row rows ih =>
    rw [DataTable.raggedRow?, List.forall_mem_cons]
    split_ifs with hrow
    · simp [hrow]
    · rw [ih]
      simp_all

theorem optional_eq_ok {v : Json} {caption : Option Text}
    (h : Decoding.optional text v = .ok caption) :
    v = .null ∧ caption = none ∨ ∃ t, v = .string t ∧ caption = some t := by
  cases v with
  | null => exact .inl ⟨rfl, (Except.ok.inj h).symm⟩
  | string t => exact .inr ⟨t, rfl, (Except.ok.inj h).symm⟩
  | _ => cases h

/-- A field that must be there is read from its member. -/
theorem required_eq_ok {α : Type} {position : ℕ} {name : Text} {decode : Decoder α}
    {members : Table Json} {a : α}
    (h : (Fields.field position name decode none).ofMembers members = .ok a) :
    ∃ v, Table.find? name members = some v ∧ decode v = .ok a := by
  rcases field_eq_ok.1 h with hv | ⟨-, hnone⟩
  · exact hv
  · contradiction

theorem says_of_decode {parameters : Table Json} {w : DataTable}
    (h : DataTable.record.decode (.object parameters) = .ok w) : Says parameters w := by
  obtain ⟨_, rows, hbefore, hrows, rfl⟩ := andThen_eq_ok.1 (ofMembers_of_decode h)
  obtain ⟨_, columns, hbefore', hcolumns, rfl⟩ := andThen_eq_ok.1 hbefore
  obtain ⟨_, caption, hnothing, hcaption, rfl⟩ := andThen_eq_ok.1 hbefore'
  obtain rfl := Except.ok.inj hnothing
  have hstrings : ∀ v ts, list text v = .ok ts → v = .array (ts.map .string) :=
    fun v ts => list_eq_ok fun _ _ => text_eq_ok.1
  obtain ⟨v, hfound, hv⟩ := required_eq_ok hrows
  obtain ⟨v', hfound', hv'⟩ := required_eq_ok hcolumns
  refine ⟨?_, hfound'.trans (congrArg some (hstrings v' columns hv')),
    hfound.trans (congrArg some (list_eq_ok hstrings hv))⟩
  rcases field_eq_ok.1 hcaption with ⟨c, hc, hread⟩ | ⟨hc, hread⟩
  · rcases optional_eq_ok hread with ⟨rfl, rfl⟩ | ⟨t, rfl, rfl⟩
    · exact .inr ⟨rfl, hc⟩
    · exact .inl hc
  · obtain rfl := Option.some.inj hread
    exact .inl hc

/-- The placeholder of an accepted table is read back as the table that was authored. It has a
column, and each of its rows has as many cells as there are columns. -/
theorem table_read_back {slot : Text} {spec : WidgetSpec} {w : Widget}
    (hkind : WidgetKind.ofName? spec.kind = some .dataTable)
    (hwidget : Compiler.widget slot spec = .ok w) :
    ∃ table markup, w = .dataTable table ∧ w.placeholder = .ok markup ∧
      readTable? markup = some table ∧ Says spec.parameters table ∧ table.columns ≠ [] ∧
        ∀ row ∈ table.rows, row.length = table.columns.length := by
  unfold Compiler.widget at hwidget
  rw [hkind] at hwidget
  have hparameters := mapError_eq_ok.1 hwidget
  unfold Widget.ofParameters at hparameters
  split at hparameters
  · contradiction
  next w' hdecode =>
  split at hparameters
  · contradiction
  next hproblem =>
  obtain rfl := Except.ok.inj hparameters
  obtain ⟨table, htable, rfl⟩ := map_eq_ok.1 hdecode
  have hinorder : table.problem? = none := hproblem
  unfold DataTable.problem? at hinorder
  split_ifs at hinorder with hcolumns
  refine ⟨table, table.markup, rfl, rfl, readTable?_markup table, says_of_decode htable, ?_, ?_⟩
  · simpa using hcolumns
  · exact raggedRow?_eq_none.1 hinorder

def imitating : DataTable where
  caption := some "</caption><caption>"
  columns := ["</th><th>", "R & D"]
  rows := [["</td></tr><tr><td>", "&lt;"], ["", "&amp;lt;"]]

def imitatingSpec : WidgetSpec where
  kind := "dataTable"
  alt := none
  parameters := [("caption", .string "</caption><caption>"),
    ("columns", .array [.string "</th><th>", .string "R & D"]),
    ("rows", .array [.array [.string "</td></tr><tr><td>", .string "&lt;"],
      .array [.string [], .string "&amp;lt;"]])]

theorem table_read_back_imitating :
    WidgetKind.ofName? imitatingSpec.kind = some .dataTable ∧
      Compiler.widget "w" imitatingSpec = .ok (.dataTable imitating) ∧
        ∃ table markup, Widget.dataTable imitating = .dataTable table ∧
          (Widget.dataTable imitating).placeholder = .ok markup ∧
            readTable? markup = some table ∧ Says imitatingSpec.parameters table ∧
              table.columns ≠ [] ∧ ∀ row ∈ table.rows, row.length = table.columns.length := by
  have hkind : WidgetKind.ofName? imitatingSpec.kind = some .dataTable := by decide
  have hwidget : Compiler.widget "w" imitatingSpec = .ok (.dataTable imitating) := rfl
  exact ⟨hkind, hwidget, table_read_back hkind hwidget⟩

end AssessmentItems.RenderedTables
