import StepLang.Proofs.NumberedNames
import StepLang.Proofs.Parser.InStream

/-! # Lists of names and numbered ranges

Lists of names stand in KEEP, DROP, RETAIN, LENGTH, ARRAY and VAR statements and behind `OF` in the
arguments of a call. A numbered range has the same names in all of them, wherever in the list it is:
one for each number from that of its first name to that of its last, with the stem of the first. Its
ends are among them as they are written, unless there are zeros in front of their numbers.
-/

namespace StepLang.Parser

open NumberedName

variable {α β γ : Type} {a b m t u : Token} {ts us rest : List Token}
  {name first last : String} {names range : List String}

/-! ### Names and ranges -/

theorem kind_ne_symbol_of_name (h : t.name? = some name) (k : Symbol) : t.kind ≠ .symbol k := by
  intro hk
  simp [Token.name?, hk, Token.Kind.isSoft] at h

theorem closing?_of_name (h : t.name? = some name) : closing? t.kind = none := by
  unfold closing?
  split
  case h_4 => rfl
  all_goals
    rename_i hk
    exact absurd hk (kind_ne_symbol_of_name h _)

/-- A token is ahead and it is no minus sign, so a name in front of it stands for itself. -/
def EndsName (ts : List Token) : Prop := ∃ u rest, ts = u :: rest ∧ u.kind ≠ .symbol .minus

theorem Reads.named {expected : String} (h : t.name? = some name) :
    Reads (Parser.expectName expected) (t :: ts) name ts := by
  refine peek.bind ?_
  rw [h]
  exact advance.bind (pure _ _)

/-- The token behind the next one is looked at without effect. -/
theorem Reads.lookBehind {f : Token → Parser β} {c : β} (h : ∀ v, Reads (f v) ts c rest) :
    Reads (Parser.peekNext >>= f) ts c rest := by
  intro s hs
  rw [out_bind_of_ok (out_peekNext s)]
  exact h s.second s hs

theorem reads_nameOrRange_name (ha : a.name? = some name) (h : EndsName ts) :
    Reads nameOrRange (a :: ts) [name] ts := by
  obtain ⟨u, rest, rfl, hu⟩ := h
  unfold nameOrRange
  refine (Reads.named ha).bind ((Reads.check _).bind (.lookBehind fun v => ?_))
  rw [beq_eq_false_iff_ne.mpr hu, Bool.false_and, if_neg (by decide)]
  exact .pure _ _

theorem out_expectName_skip {s : State} {expected : String} (h : s.ahead = t :: rest)
    (hn : t.name? = some name) : out (expectName expected) s = (.ok name, s.skip [t]) := by
  unfold expectName
  rw [out_bind_of_ok (out_peek s), State.next_of_ahead h, hn]
  dsimp only
  rw [out_bind_of_ok (out_advance_skip h)]
  rfl

/-- A range is accepted if there are names for it, and is otherwise malformed at its last name. -/
theorem out_nameOrRange {s : State} (ha : a.name? = some first) (hm : m.kind = .symbol .minus)
    (hb : b.name? = some last) (hs : s.ahead = a :: m :: b :: rest) :
    out nameOrRange s = ((numberedRange? first last).elim
      (.error (.malformed (.invalidRange first last) b.pos)) .ok, s.skip [a, m, b]) := by
  have hs₁ : (s.skip [a]).ahead = m :: b :: rest := @State.ahead_skip s [a] _ hs
  have hs₂ : (s.skip [a, m]).ahead = b :: rest := @State.ahead_skip s [a, m] _ hs
  have hsecond : (s.skip [a]).second = b := by
    rw [State.second, hs₁]
    rfl
  unfold nameOrRange
  rw [out_bind_of_ok (out_expectName_skip hs ha), checkSymbol, out_bind_of_ok (out_check _ _),
    out_bind_of_ok (out_peekNext _), State.next_of_ahead hs₁, hsecond, hm, hb, beq_self_eq_true,
    Option.isSome_some, Bool.and_self, if_pos rfl, out_bind_of_ok (out_advance_skip hs₁),
    out_bind_of_ok (out_peek _)]
  change out _ (s.skip [a, m]) = _
  rw [out_bind_of_ok (out_expectName_skip hs₂ hb)]
  change out _ (s.skip [a, m, b]) = _
  rw [← State.next_of_ahead hs₂]
  cases numberedRange? first last with
  | none => rfl
  | some names => rfl

theorem reads_nameOrRange_range (ha : a.name? = some first) (hm : m.kind = .symbol .minus)
    (hb : b.name? = some last) (hr : numberedRange? first last = some range) :
    Reads nameOrRange (a :: m :: b :: ts) range ts := by
  intro s hs
  refine ⟨s.skip [a, m, b], ?_, @State.ahead_skip s [a, m, b] _ hs, rfl⟩
  rw [out_nameOrRange ha hm hb hs, hr]
  rfl

/-! ### Lists -/

/-- The tokens are names and numbered ranges one after the other, and the list stands for the
names. -/
inductive Lists : List Token → List String → Prop
  | nil : Lists [] []
  | name {a : Token} {ts : List Token} {name : String} {names : List String}
      (ha : a.name? = some name) (h : Lists ts names) : Lists (a :: ts) (name :: names)
  | range {a m b : Token} {ts : List Token} {first last : String} {range names : List String}
      (ha : a.name? = some first) (hm : m.kind = .symbol .minus) (hb : b.name? = some last)
      (hr : numberedRange? first last = some range) (h : Lists ts names) :
      Lists (a :: m :: b :: ts) (range ++ names)

namespace Lists

theorem append {names' : List String} (h : Lists ts names) (h' : Lists us names') :
    Lists (ts ++ us) (names ++ names') := by
  induction h with
  | nil => exact h'
  | name ha _ ih => exact .name ha ih
  | range ha hm hb hr _ ih =>
    rw [List.append_assoc]
    exact .range ha hm hb hr ih

theorem exists_cons (h : Lists ts names) (hne : names ≠ []) :
    ∃ t us name, ts = t :: us ∧ t.name? = some name := by
  cases h with
  | nil => exact absurd rfl hne
  | name ha _ => exact ⟨_, _, _, rfl, ha⟩
  | range ha _ _ _ _ => exact ⟨_, _, _, rfl, ha⟩

theorem endsName (h : Lists ts names) (hu : u.kind ≠ .symbol .minus) :
    EndsName (ts ++ u :: rest) := by
  cases h with
  | nil => exact ⟨u, rest, rfl, hu⟩
  | name ha _ => exact ⟨_, _, rfl, kind_ne_symbol_of_name ha _⟩
  | range ha _ _ _ _ => exact ⟨_, _, rfl, kind_ne_symbol_of_name ha _⟩

end Lists

/-- The passes of a loop read names and ranges and add the names to those read before. -/
structure ReadsNames (pass : β → Parser (Pass β γ)) (add : β → List String → β) : Prop where
  add_nil : ∀ read, add read [] = read
  add_append : ∀ read names names', add (add read names) names' = add read (names ++ names')
  name : ∀ {read a name ts}, a.name? = some name → EndsName ts →
    Reads (pass read) (a :: ts) (.again (add read [name])) ts
  range : ∀ {read a m b first last range ts}, a.name? = some first → m.kind = .symbol .minus →
    b.name? = some last → numberedRange? first last = some range →
    Reads (pass read) (a :: m :: b :: ts) (.again (add read range)) ts

namespace ReadsNames

theorem ofItem {item : β → Parser β} {add : β → List String → β}
    (add_nil : ∀ read, add read [] = read)
    (add_append : ∀ read names names', add (add read names) names' = add read (names ++ names'))
    (reads : ∀ {read t name ts names rest}, t.name? = some name →
      Reads nameOrRange (t :: ts) names rest → Reads (item read) (t :: ts) (add read names) rest) :
    ReadsNames (listPass item) add where
  add_nil := add_nil
  add_append := add_append
  name ha h :=
    reads_listPass (kind_ne_symbol_of_name ha _) (reads ha (reads_nameOrRange_name ha h))
  range ha hm hb hr :=
    reads_listPass (kind_ne_symbol_of_name ha _) (reads ha (reads_nameOrRange_range ha hm hb hr))

variable {pass : β → Parser (Pass β γ)} {add : β → List String → β} {read : β} {c : γ}

/-- A loop reads a list to its end, where `k` more passes or more are left to it. -/
theorem reads (hp : ReadsNames pass add) (hl : Lists ts names) (hu : u.kind ≠ .symbol .minus)
    {n k : Nat} (hn : ts.length + k ≤ n)
    (hend : ∀ j, k ≤ j → Reads (repeatUpTo pass j (add read names)) (u :: us) c rest) :
    Reads (repeatUpTo pass n read) (ts ++ u :: us) c rest := by
  induction hl generalizing read n with
  | nil =>
    rw [hp.add_nil] at hend
    exact hend n (Nat.le_trans (Nat.le_add_left ..) hn)
  | @name a ts name names ha hl ih =>
    rw [List.length_cons] at hn
    obtain ⟨n, rfl⟩ : ∃ n', n = n' + 1 := ⟨n - 1, by omega⟩
    refine .again (hp.name ha (hl.endsName hu)) (ih (by omega) fun j hj => ?_)
    rw [hp.add_append]
    exact hend j hj
  | @range a m b ts first last range names ha hm hb hr hl ih =>
    rw [List.length_cons, List.length_cons, List.length_cons] at hn
    obtain ⟨n, rfl⟩ : ∃ n', n = n' + 1 := ⟨n - 1, by omega⟩
    refine .again (hp.range ha hm hb hr) (ih (by omega) fun j hj => ?_)
    rw [hp.add_append]
    exact hend j hj

theorem reads_repeated (hp : ReadsNames pass add) (hl : Lists ts names)
    (hu : u.kind ≠ .symbol .minus) (hend : Reads (pass (add read names)) (u :: us) (.done c) rest) :
    Reads (repeated read pass) (ts ++ u :: us) c rest := by
  refine .repeated (hp.reads (k := 1) hl hu ?_ fun j hj => ?_)
  · rw [List.length_append, List.length_cons]
    omega
  · obtain ⟨j, rfl⟩ : ∃ j', j = j' + 1 := ⟨j - 1, by omega⟩
    exact .done hend

theorem reads_list {item : β → Parser β} (hp : ReadsNames (listPass item) add)
    (hl : Lists ts names) (hu : u.kind = .symbol .semicolon) :
    Reads (repeated read (listPass item)) (ts ++ u :: us) (add read names) (u :: us) :=
  hp.reads_repeated hl (by simp [hu]) (reads_listPass_done _ hu)

end ReadsNames

/-! ### Lists in statements -/

variable {e : Token}

theorem readsNames_nameItem : ReadsNames (listPass nameItem) (· ++ ·) :=
  .ofItem List.append_nil List.append_assoc fun _ h => h.bind (.pure _ _)

theorem reads_nameList (hl : Lists ts names) (he : e.kind = .symbol .semicolon) :
    Reads nameList (ts ++ e :: rest) names rest := by
  rw [nameList_eq]
  exact (readsNames_nameItem.reads_list hl he).bind ((Reads.expectSemicolon he).bind (.pure _ _))

theorem reads_literal_none (ht : t.name? = some name) :
    Reads literal? (t :: ts) none (t :: ts) := by
  unfold literal?
  refine Reads.peek.bind ?_
  split
  case h_5 => exact .pure _ _
  all_goals
    rename_i hk
    simp [Token.name?, hk, Token.Kind.isSoft] at ht

theorem readsNames_retainItem : ReadsNames (listPass retainItem)
    fun read names => (read.1, read.2 ++ names.map (⟨·, none⟩)) := by
  refine .ofItem (fun read => ?_) (fun read names names' => ?_) fun ht h => ?_
  · rw [List.map_nil, List.append_nil]
  · rw [List.map_append, List.append_assoc]
  · exact (reads_literal_none ht).bind (h.bind (.pure _ _))

theorem reads_retainStatement (hl : Lists ts names) (he : e.kind = .symbol .semicolon) :
    Reads retainStatement (t :: (ts ++ e :: rest)) (.retain (names.map (⟨·, none⟩))) rest := by
  rw [retainStatement_eq]
  refine Reads.advance.bind ((readsNames_retainItem.reads_list hl he).bind ?_)
  exact (Reads.expectSemicolon he).bind (.pure _ _)

theorem readsNames_lengthItem : ReadsNames (listPass lengthItem)
    fun read names => (read.1, read.2 ++ names) := by
  refine .ofItem (fun read => ?_) (fun read names names' => ?_) ?_
  · rw [List.append_nil]
  · rw [List.append_assoc]
  · intro read t name ts names rest ht h
    refine (Reads.accept_ne (kind_ne_symbol_of_name ht _)).bind (Reads.peek.bind ?_)
    split
    · rename_i hk
      simp [Token.name?, hk, Token.Kind.isSoft] at ht
    · exact h.bind (.pure _ _)

structure IsLength (v : Token) (x : Float) : Prop where
  kind : v.kind = .number x
  one_le : ¬ x < 1.0
  isWhole : Number.isWhole x = true

variable {v d : Token} {x : Float}

/-- A length is declared for the names in front of it, of the kind that a mark there gives. -/
theorem reads_lengthItem {character : Bool} {marks : List Token}
    (hm : Reads (accept (.symbol .dollar)) marks character (v :: ts)) (hv : IsLength v x)
    (hne : names ≠ []) (items : List LengthItem) :
    Reads (lengthItem (items, names)) marks
      (items ++ names.map (⟨·, if character then .character else .numeric, Number.toCount x⟩), [])
      ts := by
  have hempty : names.isEmpty = false := by simpa using hne
  refine hm.bind (Reads.peek.bind ?_)
  simp only [hv.kind]
  refine Reads.advance.bind ?_
  simp only [hempty, hv.one_le, hv.isWhole, Bool.false_eq_true, if_false, decide_false,
    Bool.not_true, Bool.or_self]
  exact .pure _ _

theorem reads_lengthStatement {character : Bool} {marks : List Token} (hl : Lists ts names)
    (hne : names ≠ []) (hu : u.kind ≠ .symbol .semicolon) (hu' : u.kind ≠ .symbol .minus)
    (hm : Reads (accept (.symbol .dollar)) (u :: marks) character (v :: e :: rest))
    (hv : IsLength v x) (he : e.kind = .symbol .semicolon) :
    Reads lengthStatement (t :: (ts ++ u :: marks)) (.length
      (names.map (⟨·, if character then .character else .numeric, Number.toCount x⟩))) rest := by
  rw [lengthStatement_eq]
  refine Reads.advance.bind (.bind (a := (names.map
    (⟨·, if character then .character else .numeric, Number.toCount x⟩), [])) ?_
    ((Reads.expectSemicolon he).bind (.pure _ _)))
  refine .repeated (readsNames_lengthItem.reads (k := 2) hl hu' ?_ fun j hj => ?_)
  · rw [List.length_append, List.length_cons]
    omega
  · -- one more pass reads the length, and one ends the loop
    obtain ⟨j, rfl⟩ : ∃ j', j = j' + 2 := ⟨j - 2, by omega⟩
    have hitem := reads_listPass hu (reads_lengthItem hm hv hne [])
    exact .again hitem (.done (reads_listPass_done _ he))

theorem reads_expectSymbol {k : Symbol} {expected : String} (h : t.kind = .symbol k) :
    Reads (expectSymbol k expected) (t :: ts) () ts :=
  (Reads.accept h).bind (.pure _ _)

theorem reads_arrayStatement {opening star close : Token} {k : Symbol} (hl : Lists ts names)
    (hne : names ≠ []) (ha : a.name? = some name) (ho : closing? opening.kind = some k)
    (hs : star.kind = .symbol .star) (hc : close.kind = .symbol k)
    (he : e.kind = .symbol .semicolon) :
    Reads arrayStatement (t :: a :: opening :: star :: close :: (ts ++ e :: rest))
      (.array name .star .numeric names) rest := by
  have hsize : Reads arraySize (star :: close :: (ts ++ e :: rest)) .star
      (close :: (ts ++ e :: rest)) := (Reads.accept hs).bind (.pure _ _)
  have hkind : Reads elementKind (ts ++ e :: rest) .numeric (ts ++ e :: rest) := by
    obtain ⟨b, us, last, rfl, hb⟩ := hl.exists_cons hne
    exact (Reads.accept_ne (kind_ne_symbol_of_name hb _)).bind (.pure _ _)
  have hempty : names.isEmpty = false := by simpa using hne
  unfold arrayStatement
  refine Reads.advance.bind ((Reads.named ha).bind (Reads.advance.bind ?_))
  rw [ho]
  refine hsize.bind ((reads_expectSymbol hc).bind (hkind.bind ((reads_nameList hl he).bind ?_)))
  rw [arrayVariables, hempty]
  exact Reads.bind (.pure names _) (.bind (.modify (fun _ => rfl) fun _ => rfl) (.pure _ _))

theorem reads_statement {statement : StepStatement} (ha : a.name? = some name)
    (h : ∀ p, Reads (statementBody p) (t :: a :: ts) statement rest) :
    Reads stepStatement (t :: a :: ts) statement rest :=
  reads_stepStatement (closing?_of_name ha) (kind_ne_symbol_of_name ha _) h

/-- A statement of a DATA step that is a keyword and a list of names, with more behind it. -/
theorem Lists.reads_statement {statement : StepStatement} (hl : Lists ts names) (hne : names ≠ [])
    (h : ∀ p, Reads (statementBody p) (t :: (ts ++ us)) statement rest) :
    Reads stepStatement (t :: (ts ++ us)) statement rest := by
  obtain ⟨a, ts, name, rfl, ha⟩ := hl.exists_cons hne
  exact Parser.reads_statement ha h

/-- The statements that take a list of names: what reads the statement, the tokens in front of the
list and behind it, and what the statement is for the names of the list. -/
inductive TakesNames : {α : Type} → Parser α → List Token → List Token → (List String → α) → Prop
  | keep {k e : Token} (hk : k.kind = .keyword .KEEP) (he : e.kind = .symbol .semicolon) :
      TakesNames stepStatement [k] [e] .keep
  | drop {k e : Token} (hk : k.kind = .keyword .DROP) (he : e.kind = .symbol .semicolon) :
      TakesNames stepStatement [k] [e] .drop
  | retain {k e : Token} (hk : k.kind = .keyword .RETAIN) (he : e.kind = .symbol .semicolon) :
      TakesNames stepStatement [k] [e] fun names => .retain (names.map (⟨·, none⟩))
  | length {k v e : Token} {x : Float} (hk : k.kind = .keyword .LENGTH) (hv : IsLength v x)
      (he : e.kind = .symbol .semicolon) :
      TakesNames stepStatement [k] [v, e] fun names =>
        .length (names.map (⟨·, .numeric, Number.toCount x⟩))
  | characterLength {k d v e : Token} {x : Float} (hk : k.kind = .keyword .LENGTH)
      (hd : d.kind = .symbol .dollar) (hv : IsLength v x) (he : e.kind = .symbol .semicolon) :
      TakesNames stepStatement [k] [d, v, e] fun names =>
        .length (names.map (⟨·, .character, Number.toCount x⟩))
  | array {k a opening star close e : Token} {name : String} {bracket : Symbol}
      (hk : k.kind = .keyword .ARRAY) (ha : a.name? = some name)
      (ho : closing? opening.kind = some bracket) (hs : star.kind = .symbol .star)
      (hc : close.kind = .symbol bracket) (he : e.kind = .symbol .semicolon) :
      TakesNames stepStatement [k, a, opening, star, close] [e] (.array name .star .numeric)
  | meansVar {k e : Token} (request : MeansRequest) (hk : k.kind = .keyword .VAR)
      (he : e.kind = .symbol .semicolon) :
      TakesNames (meansStatement request) [k] [e] fun names => { request with vars := names }
  | printVar {k e : Token} (request : PrintRequest) (hk : k.kind = .keyword .VAR)
      (he : e.kind = .symbol .semicolon) :
      TakesNames (printStatement request) [k] [e] fun names => { request with vars := names }

theorem TakesNames.reads {p : Parser α} {front behind : List Token} {build : List String → α}
    (h : TakesNames p front behind build) (hl : Lists ts names) (hne : names ≠ []) :
    Reads p (front ++ ts ++ behind ++ rest) (build names) rest := by
  cases h
  all_goals simp only [List.cons_append, List.nil_append, List.append_assoc]
  case keep hk he =>
    refine hl.reads_statement hne fun q => Reads.peek.bind ?_
    rw [hk]
    exact Reads.advance.bind ((reads_nameList hl he).bind (.pure _ _))
  case drop hk he =>
    refine hl.reads_statement hne fun q => Reads.peek.bind ?_
    rw [hk]
    exact Reads.advance.bind ((reads_nameList hl he).bind (.pure _ _))
  case retain hk he =>
    refine hl.reads_statement hne fun q => Reads.peek.bind ?_
    rw [hk]
    exact reads_retainStatement hl he
  case length hk hv he =>
    refine hl.reads_statement hne fun q => Reads.peek.bind ?_
    rw [hk]
    exact reads_lengthStatement hl hne (by simp [hv.kind]) (by simp [hv.kind])
      (.accept_ne (by simp [hv.kind])) hv he
  case characterLength hk hd hv he =>
    refine hl.reads_statement hne fun q => Reads.peek.bind ?_
    rw [hk]
    exact reads_lengthStatement hl hne (by simp [hd]) (by simp [hd]) (.accept hd) hv he
  case array hk ha ho hs hc he =>
    refine reads_statement ha fun q => Reads.peek.bind ?_
    rw [hk]
    exact reads_arrayStatement hl hne ha ho hs hc he
  case meansVar request hk he =>
    refine Reads.peek.bind ?_
    rw [hk]
    exact Reads.advance.bind ((reads_nameList hl he).bind (.pure _ _))
  case printVar request hk he =>
    refine Reads.peek.bind ?_
    rw [hk]
    exact Reads.advance.bind ((reads_nameList hl he).bind (.pure _ _))

/-! ### Lists behind OF -/

theorem readsNames_variablePass : ReadsNames variablePass (· ++ ·) where
  add_nil := List.append_nil
  add_append := List.append_assoc
  name := by
    rintro read a name _ ha ⟨u, rest, rfl, hu⟩
    refine (Reads.accept_ne (kind_ne_symbol_of_name ha _)).bind ((Reads.named ha).bind ?_)
    exact (Reads.accept_ne hu).bind (.pure _ _)
  range := by
    intro read a m b first last range ts ha hm hb hr
    refine (Reads.accept_ne (kind_ne_symbol_of_name ha _)).bind ((Reads.named ha).bind ?_)
    refine (Reads.accept hm).bind ((Reads.named hb).bind ?_)
    rw [expandRange_eq, hr]
    exact .pure _ _

/-- The tokens of a call of a function in front of a list of variables, and the one behind it. -/
inductive TakesVariables (function : String) : List Token → Token → Prop
  | mk {f opening word close : Token} {w : String} (hf : f.name? = some function)
      (ho : opening.kind = .symbol .leftParen) (hw : word.kind = .name w)
      (hof : Text.sameName w "of" = true) (hc : close.kind = .symbol .rightParen) :
      TakesVariables function [f, opening, word] close

theorem reads_variableList {close : Token} (hl : Lists ts names)
    (hc : close.kind = .symbol .rightParen) :
    Reads variableList (t :: (ts ++ close :: rest)) (names.map .ref) rest := by
  have hclose : Reads (variablePass ([] ++ names)) (close :: rest) (.done names) rest :=
    (Reads.accept hc).bind (.pure _ _)
  rw [variableList_eq]
  refine Reads.advance.bind ?_
  exact (readsNames_variablePass.reads_repeated hl (by simp [hc]) hclose).bind (.pure _ _)

theorem reads_arguments {close : Token} {w : String} (p : Parser Expression) (hl : Lists ts names)
    (hne : names ≠ []) (hw : t.kind = .name w) (hof : Text.sameName w "of" = true)
    (hc : close.kind = .symbol .rightParen) :
    Reads (arguments p) (t :: (ts ++ close :: rest)) (names.map .ref) rest := by
  have hlist : Reads atVariableList (t :: (ts ++ close :: rest)) true
      (t :: (ts ++ close :: rest)) := by
    obtain ⟨a, ts, first, rfl, ha⟩ := hl.exists_cons hne
    refine Reads.peek.bind ?_
    rw [hw]
    refine Reads.peekNext.bind ?_
    rw [hof, ha]
    exact .pure _ _
  rw [arguments_eq]
  refine (Reads.accept_ne (by simp [hw])).bind (hlist.bind ?_)
  exact reads_variableList hl hc

/-- In a call of a function, which no array is called like, the list is that of its arguments. -/
theorem TakesVariables.reads {function : String} {front : List Token} {close : Token}
    (h : TakesVariables function front close) (p : Parser Expression) (hl : Lists ts names)
    (hne : names ≠ []) {s : State} (hs : s.ahead = front ++ ts ++ close :: rest)
    (ha : s.arrays.contains (Text.upper function) = false) :
    ∃ s', out (primary p) s = (.ok (.call function (names.map .ref)), s') ∧ s'.ahead = rest ∧
      s'.errors = s.errors := by
  cases h with
  | @mk f opening word _ w hf ho hw hof hc =>
    rw [List.append_assoc] at hs
    have hs₁ : (s.skip [f]).ahead = opening :: word :: (ts ++ close :: rest) :=
      @State.ahead_skip s [f] _ hs
    have hs₂ : ((s.skip [f]).skip [opening]).ahead = word :: (ts ++ close :: rest) :=
      State.ahead_skip (@State.ahead_skip s [f] _ hs)
    obtain ⟨s', hout, hrest, herrors⟩ := reads_arguments p hl hne hw hof hc _ hs₂
    refine ⟨s', ?_, hrest, herrors⟩
    rw [out_primary_name hs hf, out_nameSuffix_call hs₁ ho ha hout]

/-! ### Ranges everywhere -/

/-- The tokens are a list that stands for the names in every statement and in every call that takes
one. -/
structure StandsFor (list : List Token) (names : List String) : Prop where
  statement : ∀ {α : Type} {p : Parser α} {front behind : List Token} {build : List String → α},
    TakesNames p front behind build →
      ∀ rest, Reads p (front ++ list ++ behind ++ rest) (build names) rest
  call : ∀ {function : String} {front : List Token} {close : Token},
    TakesVariables function front close → ∀ (p : Parser Expression) (s : State) (rest : List Token),
      s.ahead = front ++ list ++ close :: rest →
      s.arrays.contains (Text.upper function) = false →
        ∃ s', out (primary p) s = (.ok (.call function (names.map .ref)), s') ∧ s'.ahead = rest ∧
          s'.errors = s.errors

theorem Lists.standsFor (hl : Lists ts names) (hne : names ≠ []) : StandsFor ts names where
  statement h _ := h.reads hl hne
  call h p _ _ hs ha := h.reads p hl hne hs ha

theorem accepts_iff {s : State} (ha : a.name? = some first) (hm : m.kind = .symbol .minus)
    (hb : b.name? = some last) (hs : s.ahead = a :: m :: b :: rest) :
    (out nameOrRange s).1 = .ok range ↔ numberedRange? first last = some range := by
  rw [out_nameOrRange ha hm hb hs]
  cases numberedRange? first last with
  | none => simp
  | some names => simp

/-- A range is accepted in a list exactly if its names are numbered, with the same stem and with
counts that do not fall. It stands for the names that it spans, and for the same ones behind `OF`,
wherever it is in a list. -/
theorem ranges_expand_alike {s : State} (ha : a.name? = some first)
    (hm : m.kind = .symbol .minus) (hb : b.name? = some last) (hs : s.ahead = a :: m :: b :: rest) :
    ((∃ range, (out nameOrRange s).1 = .ok range) ↔
      ∃ x y : NumberedName, x.text = first ∧ y.text = last ∧
        Text.sameName x.stemText y.stemText = true ∧ x.number ≤ y.number ∧ y.number < 2 ^ 64) ∧
    ∀ range, (out nameOrRange s).1 = .ok range →
      (∃ x y : NumberedName, x.text = first ∧ y.text = last ∧ Spans x y range) ∧
      expandRange first last = range ∧
      ∀ {before after : List String} {ts us : List Token}, Lists ts before → Lists us after →
        StandsFor (ts ++ a :: m :: b :: us) (before ++ range ++ after) := by
  have haccepts : ∀ range, (out nameOrRange s).1 = .ok range ↔
      numberedRange? first last = some range := fun _ => accepts_iff ha hm hb hs
  constructor
  · simp only [haccepts, numberedRange?_eq_some_iff]
    constructor
    · rintro ⟨range, x, y, hx, hy, hstem, hle, hbound, -⟩
      exact ⟨x, y, hx, hy, hstem, hle, hbound⟩
    · rintro ⟨x, y, hx, hy, hstem, hle, hbound⟩
      exact ⟨_, x, y, hx, hy, hstem, hle, hbound, rfl⟩
  · intro range hrange
    rw [haccepts] at hrange
    have hspans : ∃ x y : NumberedName, x.text = first ∧ y.text = last ∧ Spans x y range := by
      obtain ⟨x, y, hx, hy, hstem, hle, -, rfl⟩ := numberedRange?_eq_some_iff.mp hrange
      exact ⟨x, y, hx, hy, spans_upTo hle hstem⟩
    refine ⟨hspans, by rw [expandRange_eq, hrange, Option.getD_some], ?_⟩
    intro before after ts us hts hus
    have hne : before ++ range ++ after ≠ [] := by
      obtain ⟨x, y, -, -, hspan⟩ := hspans
      have hlength := hspan.length
      intro hnil
      obtain ⟨-, rfl, -⟩ : before = [] ∧ range = [] ∧ after = [] := by simpa using hnil
      cases hlength
    refine Lists.standsFor ?_ hne
    rw [List.append_assoc]
    exact hts.append (.range ha hm hb hrange hus)

/-- The tokens of `keep q_9-Q_11 z;`. -/
def mixedCaseKeep : List Token :=
  [⟨.keyword .KEEP, "keep", ⟨1, 1⟩⟩, ⟨.name "q_9", "q_9", ⟨1, 6⟩⟩, ⟨.symbol .minus, "-", ⟨1, 9⟩⟩,
    ⟨.name "Q_11", "Q_11", ⟨1, 10⟩⟩, ⟨.name "z", "z", ⟨1, 15⟩⟩,
    ⟨.symbol .semicolon, ";", ⟨1, 16⟩⟩]

def mixedCaseState : State where
  ahead := mixedCaseKeep.tail
  eof := ⟨.endOfInput, "", ⟨1, 17⟩⟩
  last := ⟨.keyword .KEEP, "keep", ⟨1, 1⟩⟩

theorem ranges_expand_alike_mixedCase :
    (out nameOrRange mixedCaseState).1 = .ok ["q_9", "q_10", "q_11"] ∧
    (∃ x y : NumberedName, x.text = "q_9" ∧ y.text = "Q_11" ∧
      Spans x y ["q_9", "q_10", "q_11"]) ∧
    expandRange "q_9" "Q_11" = ["q_9", "q_10", "q_11"] ∧
    StandsFor (mixedCaseKeep.tail.take 4) ["q_9", "q_10", "q_11", "z"] ∧
    Reads stepStatement mixedCaseKeep (.keep ["q_9", "q_10", "q_11", "z"]) [] := by
  have hstem : Text.sameName "q_" "Q_" = true := by
    rw [Text.sameName_iff, ← String.toList_inj, Text.upper, Text.upper, String.toList_map,
      String.toList_map]
    decide
  have hfirst : splitNumbered? "q_9" = some ("q_", 9) := by decide +kernel
  have hlast : splitNumbered? "Q_11" = some ("Q_", 11) := by decide +kernel
  have hnames : numberedRange? "q_9" "Q_11" = some ["q_9", "q_10", "q_11"] := by
    simp only [numberedRange?, hfirst, hlast, hstem]
    decide +kernel
  have hrange : (out nameOrRange mixedCaseState).1 = .ok ["q_9", "q_10", "q_11"] :=
    (accepts_iff (a := ⟨.name "q_9", "q_9", ⟨1, 6⟩⟩) rfl rfl rfl rfl).mpr hnames
  obtain ⟨-, h⟩ := @ranges_expand_alike ⟨.name "q_9", "q_9", ⟨1, 6⟩⟩
    ⟨.name "Q_11", "Q_11", ⟨1, 10⟩⟩ ⟨.symbol .minus, "-", ⟨1, 9⟩⟩ (mixedCaseKeep.drop 4)
    "q_9" "Q_11" mixedCaseState rfl rfl rfl rfl
  obtain ⟨hspans, hexpand, hstands⟩ := h _ hrange
  have hlist : StandsFor (mixedCaseKeep.tail.take 4) ["q_9", "q_10", "q_11", "z"] :=
    hstands .nil (.name rfl .nil)
  have hkeep : TakesNames stepStatement [mixedCaseKeep[0]] [mixedCaseKeep[5]] .keep :=
    .keep rfl rfl
  exact ⟨hrange, hspans, hexpand, hlist, hlist.statement hkeep []⟩

/-- The tokens of `keep x01-x02;`. -/
def paddedKeep : List Token :=
  [⟨.keyword .KEEP, "keep", ⟨1, 1⟩⟩, ⟨.name "x01", "x01", ⟨1, 6⟩⟩, ⟨.symbol .minus, "-", ⟨1, 9⟩⟩,
    ⟨.name "x02", "x02", ⟨1, 10⟩⟩, ⟨.symbol .semicolon, ";", ⟨1, 13⟩⟩]

/-- The zeros of `x01-x02` are lost, and with them both names that the range is written with. -/
theorem padded_range_loses_ends :
    Token.scan "keep x01-x02;" = .ok (paddedKeep ++ [⟨.endOfInput, "", ⟨1, 14⟩⟩]) ∧
      ∃ names, (∀ s, s.ahead = paddedKeep.tail → (out nameOrRange s).1 = .ok names) ∧
        Reads stepStatement paddedKeep (.keep names) [] ∧ names.head? ≠ some "x01" ∧
        ¬ ∃ name ∈ names.getLast?, Text.sameName name "x02" = true := by
  have hrange : numberedRange? "x01" "x02" = some ["x1", "x2"] := by decide +kernel
  refine ⟨by decide +kernel, ["x1", "x2"], fun s hs => ?_, ?_, by decide, ?_⟩
  · exact (accepts_iff (a := ⟨.name "x01", "x01", ⟨1, 6⟩⟩) rfl rfl rfl hs).mpr hrange
  · have hlist : Lists (paddedKeep.tail.take 3) ["x1", "x2"] := .range rfl rfl rfl hrange .nil
    have hkeep : TakesNames stepStatement [paddedKeep[0]] [paddedKeep[4]] .keep := .keep rfl rfl
    exact hkeep.reads hlist (by decide)
  · rintro ⟨name, ⟨⟩, hname⟩
    revert hname
    decide

end StepLang.Parser
