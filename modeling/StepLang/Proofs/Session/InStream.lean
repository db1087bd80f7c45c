import StepLang.Proofs.DataStep.InStream
import StepLang.Proofs.Session.Work
import StepLang.Proofs.Token.InStream

/-! # Running a step that holds its own data

A program whose only step reads fields from its own data lines reports no error, in any session
without a limit on observations, and stores a row for each line.
-/

namespace StepLang

/-- The data set of the fields and the words of each line. -/
def DataStep.tableOf (name : String) (fields : List InputField) (table : List (List String)) :
    Dataset where
  name
  columns := fields.map (·.name)
  rows := table.map (rowOf fields)

namespace Session

open DataStep Token

theorem run_of_program {s s' : Session} {source : String} {tokens : List Token}
    {statements : List Statement} {errors : List Error} (hscan : Token.scan source = .ok tokens)
    (hprogram : Program.ofTokens tokens = ⟨statements, []⟩)
    (hexecute : s.execute statements = (errors, s')) : s.run source = (.ok errors, s') := by
  unfold run
  rw [hscan]
  dsimp only
  rw [hprogram]
  dsimp only [List.foldl_nil]
  rw [hexecute]
  rfl

/-- In-stream data come back as they stand: a session without a limit on observations runs the step
without an error, and the data set it stores has the fields as its columns and a row for each line,
whose cells are the values of its words. -/
theorem run_inStream {s : Session} {fields : List InputField} {table : List (List String)}
    {lines : List String} (hs : s.Reachable) (hlimit : s.obsLimit = none) (hne : fields ≠ [])
    (hn : ∀ f ∈ fields, IsPlainName f.name) (hd : DistinctFields fields)
    (h : List.Forall₂ IsDataLine table lines) :
    (s.run (inStreamText fields lines)).1 = .ok [] ∧
      ∀ r : DatasetRef, r.library = "WORK" → Text.upper r.name = "A" →
        (s.run (inStreamText fields lines)).2.dataset r = .ok (tableOf "a" fields table) := by
  obtain ⟨tokens, hscan, hkinds⟩ := scan_inStream hn h
  have hprogram := Program.ofTokens_inStream hne hkinds
  obtain ⟨notes, hstep⟩ := @runStep_inStream fields (Action.stepSetting s [.work "a"]) table lines
    hlimit hd hne h
  obtain ⟨s', l, -, hexecute⟩ := hs.hasWork.execute_dataStep (d := tableOf "a" fields table)
    (by decide +kernel) hstep
  have hrun := run_of_program hscan hprogram hexecute
  rw [hrun]
  refine ⟨rfl, fun r hr hname => ?_⟩
  have hwork : r.library = DatasetRef.library (.work "a") := hr.trans (by decide +kernel)
  exact dataset_keep hwork (hname.trans (by decide +kernel))

/-- Words that would be special outside of data. -/
def oddTable : List (List String) :=
  [["it's", "7"], ["run;", "."], [";", "a/*b"], ["%let"], [".", "\""]]

def oddFields : List InputField := [⟨"who", .character⟩, ⟨"paid", .numeric⟩]

theorem run_inStream_odd :
    ((Session.start {} {} 0).2.run (inStreamText oddFields (oddTable.map " ".intercalate))).1 =
        .ok [] ∧
      ((Session.start {} {} 0).2.run
        (inStreamText oddFields (oddTable.map " ".intercalate))).2.dataset ⟨some "Work", "A"⟩ =
          .ok { name := "a", columns := ["who", "paid"], rows := [
            [("who", .text "it's"), ("paid", .number 7.0)],
            [("who", .text "run;"), ("paid", .missing)],
            [("who", .text ";"), ("paid", .missing)],
            [("who", .text "%let"), ("paid", .missing)],
            [("who", .text ""), ("paid", .missing)]] } := by
  have hnames : ∀ f ∈ oddFields, IsPlainName f.name := by
    refine List.forall_mem_cons.mpr ⟨?_, List.forall_mem_singleton.mpr ?_⟩
    · exact ⟨⟨'w', ['h', 'o'], rfl, rfl, rfl⟩, by decide +kernel⟩
    · exact ⟨⟨'p', ['a', 'i', 'd'], rfl, rfl, rfl⟩, by decide +kernel⟩
  have hdistinct : DistinctFields oddFields := by
    unfold DistinctFields
    decide +kernel
  have hwords : ∀ words ∈ oddTable, ∀ w ∈ words, Text.IsWord w := by
    simp only [oddTable, List.forall_mem_cons, Text.IsWord]
    simp
    decide
  have hkept : ∀ words ∈ oddTable, words ≠ [] ∧
      ∀ w, words = [w] → ∃ c ∈ w.toList, c ≠ ';' := by
    simp [oddTable]
  have hlines : List.Forall₂ IsDataLine oddTable (oddTable.map " ".intercalate) := by
    refine List.forall₂_map_right_iff.mpr (List.forall₂_same.mpr fun words hm => ?_)
    exact .of_words (hwords words hm) (hkept words hm).1 (hkept words hm).2
  obtain ⟨hrun, hstored⟩ := run_inStream (.start {} {} 0) rfl (by decide) hnames hdistinct hlines
  refine ⟨hrun, ?_⟩
  rw [hstored ⟨some "Work", "A"⟩ (by decide +kernel) (by decide +kernel)]
  have hrows : oddTable.map (rowOf oddFields) = [
      [("who", .text "it's"), ("paid", .number 7.0)], [("who", .text "run;"), ("paid", .missing)],
      [("who", .text ";"), ("paid", .missing)], [("who", .text "%let"), ("paid", .missing)],
      [("who", .text ""), ("paid", .missing)]] := by decide +kernel
  rw [tableOf, hrows]
  rfl

end Session

end StepLang
