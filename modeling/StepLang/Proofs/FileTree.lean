import Mathlib.Data.String.Basic
import StepLang.Storage

/-! # Writing into a tree of files

A file is written where there is no directory, so a path that denotes something before the file is
written still leads to the same place, and denotes the same unless it is the place of the file.
-/

namespace StepLang.FileTree

variable {t t' : FileTree} {place : List String}

theorem lookup_insert_of_ne {p : List String} (h : p ≠ place) (node : FileNode)
    (nodes : List (List String × FileNode)) :
    (insertNode.insert place node nodes).lookup p = nodes.lookup p := by
  induction nodes with
  | nil => simp [insertNode.insert, List.lookup_cons, beq_false_of_ne h]
  | cons entry rest ih =>
    obtain ⟨q, n⟩ := entry
    by_cases hq : q = place
    · subst hq
      simp [insertNode.insert, List.lookup_cons, beq_false_of_ne h]
    · simp [insertNode.insert, hq, List.lookup_cons, ih]

theorem node?_insertNode_of_ne (t : FileTree) {p : List String} (h : p ≠ place)
    (node : FileNode) : (t.insertNode place node).node? p = t.node? p := by
  simp only [node?, insertNode, lookup_insert_of_ne h]

/-- Every place on the way is a directory, so none of them is the place of the file. -/
theorem follow_insertNode (hd : t.node? place ≠ some .directory) (node : FileNode)
    {p q : List String} {names : List String} (h : t.follow p names = .ok q) :
    (t.insertNode place node).follow p names = .ok q := by
  induction names generalizing p with
  | nil => exact h
  | cons name rest ih =>
    simp only [follow] at h ⊢
    have hp : t.node? p = some .directory := by
      split at h
      · cases h
      · cases h
      · assumption
    have hne : p ≠ place := by
      rintro rfl
      exact hd hp
    rw [node?_insertNode_of_ne t hne, hp]
    simp only [hp] at h
    split at h
    · cases h
    · rw [if_neg ‹_›]
      exact ih h

theorem resolve_insertNode (hd : t.node? place ≠ some .directory) (node : FileNode)
    {path : String} {q : List String} (h : t.resolve path = .ok q) :
    (t.insertNode place node).resolve path = .ok q := by
  unfold resolve at h ⊢
  split at h
  · cases h
  · split at h
    · cases h
    · rw [if_neg ‹_›, if_neg ‹_›]
      split at h
      · cases h
      · exact follow_insertNode hd node h
      · exact follow_insertNode hd node h

/-- A file can be written at the path: it leads to a place that is no directory, and it does not
ask for one. -/
def Writable (t : FileTree) (path : String) : Prop :=
  ∃ place, t.resolve path = .ok place ∧ t.node? place ≠ some .directory ∧
    path.endsWith "/" = false

theorem write_ok_iff {path : String} {content : ByteArray} :
    t.write path content = .ok t' ↔
      t.Writable path ∧ ∃ place, t.resolve path = .ok place ∧
        t' = t.insertNode place (.file content) := by
  constructor
  · intro h
    unfold write at h
    split at h
    · cases h
    · next place hr =>
      split at h
      · cases h
      · next hd =>
        split at h
        · cases h
        · next he =>
          exact ⟨⟨place, hr, hd, Bool.eq_false_iff.mpr he⟩, place, hr, (Except.ok.inj h).symm⟩
  · rintro ⟨⟨place, hr, hd, he⟩, place', hr', rfl⟩
    obtain rfl : place = place' := Except.ok.inj (hr.symm.trans hr')
    simp only [write, hr]
    exact if_neg (Bool.eq_false_iff.mp he)

theorem lookup_insert_self (node : FileNode) (nodes : List (List String × FileNode)) :
    (insertNode.insert place node nodes).lookup place = some node := by
  induction nodes with
  | nil => simp [insertNode.insert]
  | cons entry rest ih =>
    obtain ⟨q, n⟩ := entry
    by_cases hq : q = place
    · simp [insertNode.insert, hq]
    · simp [insertNode.insert, hq, List.lookup_cons, beq_false_of_ne (Ne.symm hq), ih]

theorem node?_insertNode_self (hd : t.node? place ≠ some .directory) (node : FileNode) :
    (t.insertNode place node).node? place = some node := by
  unfold node? at hd ⊢
  split at hd
  · exact absurd rfl hd
  · rw [if_neg ‹_›]
    exact lookup_insert_self node t.nodes

theorem read_of_write {path : String} {content : ByteArray} (h : t.write path content = .ok t') :
    t'.read path = .ok content := by
  obtain ⟨⟨place, hr, hd, he⟩, _, hr', rfl⟩ := write_ok_iff.mp h
  cases hr.symm.trans hr'
  have hfind : (t.insertNode place (.file content)).find path = .ok (.file content) := by
    unfold find
    rw [resolve_insertNode hd _ hr]
    simp only [bind, Except.bind]
    rw [node?_insertNode_self hd, he]
    rfl
  rw [read, hfind]

theorem find_ok {path : String} {node : FileNode} (h : t.find path = .ok node) :
    ∃ place, t.resolve path = .ok place ∧ t.node? place = some node := by
  unfold find at h
  cases hr : t.resolve path with
  | error fault =>
    rw [hr] at h
    cases h
  | ok place =>
    simp only [hr, bind, Except.bind] at h
    refine ⟨place, rfl, ?_⟩
    split at h
    · cases h
    · cases h
      assumption
    · split at h
      · cases h
      · cases h
        assumption

/-- A path that leads elsewhere than to the file that is written denotes what it did. -/
theorem find_of_write {path path' : String} {content : ByteArray} {node : FileNode}
    (hw : t.write path content = .ok t') (hf : t.find path' = .ok node)
    (hne : ∀ place, t.resolve path = .ok place → t.resolve path' ≠ .ok place) :
    t'.find path' = .ok node := by
  obtain ⟨⟨place, hr, hd, -⟩, _, hr', rfl⟩ := write_ok_iff.mp hw
  cases hr.symm.trans hr'
  obtain ⟨q, hq, hn⟩ := find_ok hf
  have hqp : q ≠ place := by
    rintro rfl
    exact hne q hr hq
  simp only [find, hq, resolve_insertNode hd _ hq, bind, Except.bind,
    node?_insertNode_of_ne t hqp] at hf ⊢
  exact hf

/-! ### Paths of one name -/

open String.Pos.Raw in
theorem splitOn_ofList_singleton {c : Char} (h : c ≠ '/') :
    (String.ofList [c]).splitOn "/" = [String.ofList [c]] := by
  have hstart : ¬ atEnd (String.ofList [c]) 0 = true :=
    fun hend => List.cons_ne_nil c [] ((String.atEnd_of_valid [] [c]).mp hend)
  have hget : get (String.ofList [c]) 0 = c := by
    simpa using String.get_of_valid [] [c]
  have hnext : next (String.ofList [c]) 0 = ⟨c.utf8Size⟩ := by
    simpa using String.next_of_valid [] c []
  have hend : atEnd (String.ofList [c]) ⟨c.utf8Size⟩ = true := by
    simpa using String.atEnd_of_valid [c] []
  have hextract : extract (String.ofList [c]) 0 ⟨c.utf8Size⟩ = String.ofList [c] := by
    simpa using String.extract_of_valid [] [c] []
  -- Two rounds of the search: one that finds no slash at the character, one at the end.
  change String.splitOnAux (String.ofList [c]) "/" 0 0 0 [] = _
  rw [String.splitOnAux, if_neg hstart, hget, show get "/" 0 = '/' from rfl,
    if_neg (by simpa using h), show (0 : String.Pos.Raw).unoffsetBy 0 = 0 from rfl, hnext,
    String.splitOnAux, if_pos hend, hextract, List.reverse_singleton]

theorem components_ofList_singleton {c : Char} (h : c ≠ '/') :
    components (String.ofList [c]) = [String.ofList [c]] := by
  have hslash : (String.ofList [c]).startsWith "/" = false := by
    simpa [String.startsWith_string_eq_false_iff] using h.symm
  rw [components, splitOn_ofList_singleton h, hslash]
  simp

end StepLang.FileTree

namespace StepLang.Engine

theorem load_of_save {files : FileTree} {path : String} (h : files.Writable path) (engine : Engine)
    (d : Dataset) :
    ∃ files', engine.save files path d = .ok files' ∧
      engine.load files' path = engine.decode path (engine.encode d).toUTF8 := by
  obtain ⟨place, hplace, -⟩ := id h
  have hsave : engine.save files path d =
      .ok (files.insertNode place (.file (engine.encode d).toUTF8)) :=
    FileTree.write_ok_iff.mpr ⟨h, place, hplace, rfl⟩
  refine ⟨_, hsave, ?_⟩
  unfold load
  rw [FileTree.read_of_write hsave]
  rfl

end StepLang.Engine
