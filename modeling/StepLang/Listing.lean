import StepLang.Dataset

/-! # Listings

Tables of text: an optional title, a header and rows, with tabs between the cells and a blank line
between tables.
-/

namespace StepLang

structure Table where
  header : List String
  rows : List (List String)

namespace Table

def lines (title : Option String) (t : Table) : List String :=
  title.toList ++ (t.header :: t.rows).map ("\t".intercalate ·)

def render (title : Option String) (t : Table) : String :=
  String.join ((t.lines title).map (· ++ "\n"))

/-- The table of a data set: chosen columns or all, at most `obs` rows, and their numbers unless
they are left out. -/
def ofDataset (d : Dataset) (vars : List String) (obs : Option Nat) (noobs : Bool) :
    Table :=
  let columns :=
    if vars.isEmpty then d.columns else vars.map fun v => (d.column? v).getD v
  let rows :=
    match obs with
    | some n => d.rows.take n
    | none => d.rows
  let cells (row : Row) := columns.map fun c => ((d.rowCell? row c).getD .missing).toText
  if noobs then ⟨columns, rows.map cells⟩
  else ⟨"Obs" :: columns, rows.zipIdx.map fun (row, i) => toString (i + 1) :: cells row⟩

end Table

def appendTable (listing : String) (title : Option String) (t : Table) : String :=
  (if listing.isEmpty then "" else listing ++ "\n") ++ t.render title

end StepLang
