import StepLang.Proofs.DataStep.Copying
import StepLang.Proofs.Session.Work

/-! # Copying data sets in a session

A step that only reads a data set stores its copy. What it stores is copied as it is by every
further step of that form.
-/

namespace StepLang.Session

open DataStep

variable {s : Session} {r : DatasetRef} {d : Dataset} {name : String}

/-- The step that only reads a data set and keeps what it reads. -/
def copyStep (name : String) (r : DatasetRef) : Statement :=
  .dataStep [.work name] [.set [r]]

theorem HasWork.execute_copyStep (hs : s.HasWork) (hlimit : s.obsLimit = none)
    (hr : s.dataset r = .ok d) (hd : d.DistinctColumns) (hm : ∀ row ∈ d.rows, row.IsMap)
    (hw : d.WellKeyed) (hname : (DatasetRef.work name).isNull = false) :
    ∃ s', s.execute [copyStep name r] = ([], s') ∧ s'.obsLimit = none ∧
      s'.dataset (.work name) = .ok { d.copy with name } := by
  obtain ⟨lines, hrun⟩ := @runStep_copy d r (Action.stepSetting s [.work name]) hlimit hr hd hm
    hw
  obtain ⟨t, l, ⟨log, listing, rfl⟩, hexecute⟩ := hs.execute_dataStep hname hrun
  exact ⟨_, hexecute, hlimit, dataset_keep_self⟩

/-- Copying a data set normalises it. The copy has the same columns and as many rows, it has the
same cells if the data set has a cell in every column of every row and the cells of a column are of
one kind, and in every case it is copied as it is. -/
theorem copy_normalises (hs : s.HasWork) (hlimit : s.obsLimit = none) (hr : s.dataset r = .ok d)
    (hd : d.DistinctColumns) (hm : ∀ row ∈ d.rows, row.IsMap) (hw : d.WellKeyed)
    (hname : (DatasetRef.work name).isNull = false) :
    ∃ s' c, s.execute [copyStep name r] = ([], s') ∧ s'.dataset (.work name) = .ok c ∧
      c.columns = d.columns ∧ c.rows.length = d.rows.length ∧
      (d.Regular → List.Forall₂ (fun row row' => ∀ column, row'.cell? column = row.cell? column)
        d.rows c.rows) ∧
      ∀ name', (DatasetRef.work name').isNull = false →
        ∃ s'', s'.execute [copyStep name' (.work name)] = ([], s'') ∧
          s''.dataset (.work name') = .ok { c with name := name' } := by
  obtain ⟨s', hexecute, hlimit', hc⟩ := hs.execute_copyStep hlimit hr hd hm hw hname
  refine ⟨s', _, hexecute, hc, rfl, List.length_map .., fun h => ?_, fun name' hname' => ?_⟩
  · refine List.forall₂_map_right_iff.mpr (List.forall₂_same.mpr fun row hrow column => ?_)
    exact h.cell?_copyRow hd hrow (hw row hrow) column
  · have hs' : s'.HasWork := by
      have := hs.execute [copyStep name r]
      rwa [hexecute] at this
    have hrows {P : Row → Prop} (hP : ∀ row, P (d.copyRow row)) :
        ∀ row ∈ d.copy.rows, P row := by
      intro row hrow
      obtain ⟨row, -, rfl⟩ := List.mem_map.mp hrow
      exact hP row
    obtain ⟨s'', hexecute', -, hc'⟩ := hs'.execute_copyStep hlimit' hc hd
      (hrows (Dataset.isMap_copyRow hd)) (hrows Dataset.within_copyRow) hname'
    refine ⟨s'', hexecute', hc'.trans ?_⟩
    have hcopy := congrArg (fun c : Dataset => { c with name := name' }) (Dataset.copy_copy hd)
    exact congrArg Except.ok hcopy

/-- Columns of which one has a number among its texts, the other one a text among its numbers. -/
def mixed : Dataset where
  name := "mixed"
  columns := ["who", "cost"]
  rows := [[("who", .text "ann"), ("cost", .number 3.0)], [("cost", .text "7")],
    [("who", .number 2.0)]]

def mixedWork : Library :=
  { Library.work with datasets := NameMap.insert {} "mixed" mixed }

def holdingMixed : Session where
  libraries := NameMap.insert {} "WORK" mixedWork

theorem copy_normalises_mixed : ∃ s' c,
    holdingMixed.execute [copyStep "c" (.work "mixed")] = ([], s') ∧
      s'.dataset (.work "c") = .ok c ∧ c.columns = ["who", "cost"] ∧ c.rows.length = 3 ∧
      ∃ s'', s'.execute [copyStep "e" (.work "c")] = ([], s'') ∧
        s''.dataset (.work "e") = .ok { c with name := "e" } := by
  have hwork : holdingMixed.libraries.find? "WORK" = some mixedWork :=
    NameMap.find?_insert_self _ _ _
  have hr : holdingMixed.dataset (.work "mixed") = .ok mixed :=
    dataset_eq_ok_iff.mpr ⟨mixedWork, library_eq_ok_iff.mpr hwork,
      Library.load?_of_find? (NameMap.find?_insert_self _ _ _) _⟩
  obtain ⟨s', c, hexecute, hc, hcolumns, hlength, -, hagain⟩ :=
    @copy_normalises holdingMixed (.work "mixed") mixed "c" ⟨mixedWork, hwork, rfl, rfl⟩ rfl hr
      (by decide +kernel) (by decide +kernel) (by decide +kernel) (by decide +kernel)
  exact ⟨s', c, hexecute, hc, hcolumns, hlength, hagain "e" (by decide +kernel)⟩

example : mixed.copy.rows = [
    [("who", .text "ann"), ("cost", .number 3.0)], [("who", .text ""), ("cost", .number 7.0)],
    [("who", .text "2"), ("cost", .missing)]] := by
  decide +kernel

end StepLang.Session
