import Mathlib.Data.List.Dedup
import Radon.Planner.Select

/-!
# Bind variables

A nested loop runs the queries of its right node once for every row of its left node. A column of another
leaf becomes a bind variable of the query, and the lowest join over both leaves keeps the position of the
column in the rows of its left node. The variable is named after the table and the column.
-/

namespace Radon.Planner

open List

variable {V : Type}

/-! ## Names -/

/-- `isLetter`. -/
def isLetter (ch : ℕ) : Bool :=
  'a'.toNat ≤ ch && ch ≤ 'z'.toNat || 'A'.toNat ≤ ch && ch ≤ 'Z'.toNat || ch = '_'.toNat || ch = '@'.toNat

/-- `isDigit`. -/
def isDigit (ch : ℕ) : Bool := '0'.toNat ≤ ch && ch ≤ '9'.toNat

/-- A character of a name, which is cut to 16 bits for the tests. -/
def compliantChar (i : ℕ) (c : Char) : Char :=
  if !isLetter (c.toNat % 2 ^ 16) && (i = 0 || !isDigit (c.toNat % 2 ^ 16)) then '_' else c

/-- `compliantName`. -/
def compliantName (name : String) : String := String.ofList (name.toList.mapIdx compliantChar)

/-- The name of the bind variable of a column. -/
def joinVar (c : ColName) : String := compliantName c.table ++ "_" ++ compliantName c.name

/-- The table of the second column goes on after the table of the first with a text of which the name of the
first column is the beginning. -/
def Shifted (c d : ColName) : Prop :=
  ∃ text, compliantName d.table = compliantName c.table ++ "_" ++ text ∧
    compliantName c.name = text ++ "_" ++ compliantName d.name

/-- Two columns that read the same, with `_` for the characters that are not allowed in a variable. -/
def Ambiguous (c d : ColName) : Prop :=
  compliantName c.table = compliantName d.table ∧ compliantName c.name = compliantName d.name ∨
    Shifted c d ∨ Shifted d c

variable {c : ColName} {n n' : PlanNode V}

/-- Texts around a separator agree if they agree part by part, or a part contains the separator. -/
theorem append_sep_cases {t t' n n' : List Char} (h : t ++ '_' :: n = t' ++ '_' :: n') :
    t = t' ∧ n = n' ∨ (∃ text, t' = t ++ '_' :: text ∧ n = text ++ '_' :: n') ∨
      ∃ text, t = t' ++ '_' :: text ∧ n' = text ++ '_' :: n := by
  obtain ⟨x, htable, hname⟩ | ⟨x, htable, hname⟩ := append_eq_append_iff.1 h
  · cases x with
    | nil => grind
    | cons ch x => grind
  · cases x with
    | nil => grind
    | cons ch x => grind

theorem toList_append_sep (s t : String) : (s ++ "_" ++ t).toList = s.toList ++ '_' :: t.toList := by
  simp [String.toList_append]

/-- Two columns have the same variable exactly when they are ambiguous. -/
theorem joinVar_eq_iff (c d : ColName) : joinVar c = joinVar d ↔ Ambiguous c d := by
  have hshift : ∀ c d : ColName, (∃ text, (compliantName d.table).toList =
      (compliantName c.table).toList ++ '_' :: text ∧ (compliantName c.name).toList =
        text ++ '_' :: (compliantName d.name).toList) → Shifted c d := by
    rintro c d ⟨text, htable, hname⟩
    refine ⟨String.ofList text, String.toList_inj.1 ?_, String.toList_inj.1 ?_⟩
    · rw [toList_append_sep, String.toList_ofList, htable]
    · rw [toList_append_sep, String.toList_ofList, hname]
  constructor
  · intro h
    have hlist := congrArg String.toList h
    rw [joinVar, joinVar, toList_append_sep, toList_append_sep] at hlist
    obtain ⟨htable, hname⟩ | hcd | hdc := append_sep_cases hlist
    · exact .inl ⟨String.toList_inj.1 htable, String.toList_inj.1 hname⟩
    · exact .inr (.inl (hshift c d hcd))
    · exact .inr (.inr (hshift d c hdc))
  · grind [Ambiguous, Shifted, joinVar]

/-! ## The columns of a query -/

/-- The columns of the `ON` clauses. -/
def TableExpr.cols : TableExpr V → List ColName
  | .table _ _ _ => []
  | .comma l r => l.cols ++ r.cols
  | .join _ l r on => l.cols ++ r.cols ++ on.elim [] Expr.cols

/-- The columns of the query that `GenerateFieldQuery` makes: the select list and the `FROM` clause. -/
def MergeNode.fieldCols (m : MergeNode V) : List ColName := m.fields.flatMap Field.cols ++ m.from_.cols

/-- The columns of the query of a leaf. -/
def MergeNode.queryCols (m : MergeNode V) : List ColName :=
  m.fieldCols ++ (m.wheres ++ m.havings).flatMap Expr.cols

/-- The columns among these that name a table of another leaf. -/
def MergeNode.outer (m : MergeNode V) (cols : List ColName) : List ColName :=
  cols.filter fun c => c.table ≠ "" && !(c.table ∈ m.tables)

/-- The columns of the leaves that name a table outside of the tree. -/
def PlanNode.outerCols (node : PlanNode V) : List ColName :=
  (node.leaves.flatMap fun m => m.outer m.queryCols).filter fun c => !(c.table ∈ node.tables)

/-- The node and all nodes below it. -/
def PlanNode.subtrees : PlanNode V → List (PlanNode V)
  | .merge m => [.merge m]
  | .join j left right => .join j left right :: (left.subtrees ++ right.subtrees)

/-- Different columns that one subtree takes from outside have different variables. -/
def PlanNode.VarsApart (node : PlanNode V) : Prop :=
  ∀ sub ∈ node.subtrees, ∀ c ∈ sub.outerCols, ∀ d ∈ sub.outerCols,
    c.table ≠ d.table ∨ c.name ≠ d.name → joinVar c ≠ joinVar d

/-! ## The variables of a plan -/

/-- `JoinNode.procure`: the position of the column in the left node, which is asked for it if it does not
return it yet. A column is never refused. -/
def JoinTree.procure (t : JoinTree V) (c : ColName) : JoinTree V :=
  if t.node.vars.any fun var => var.1 = joinVar c then t
  else
    match t.left.fieldIndex (.scalar (.col c)) with
    | .ok (index, left) =>
      { t with node := { t.node with vars := t.node.vars ++ [(joinVar c, index)] }, left := left }
    | .error _ => t

/-- The part of `buildQuery` that makes the variables, with as many levels as the tree has: the right node
comes first. A column of a leaf goes up to the join that has its table on the left. -/
def PlanNode.bindVars : ℕ → PlanNode V → PlanNode V × List ColName
  | 0, node => (node, [])
  | _ + 1, .merge m => (.merge m, if m.routeLen = 0 then [] else m.outer m.queryCols)
  | levels + 1, .join j left right =>
    let (right, cols) := right.bindVars levels
    let t := (cols.filter fun c => c.table ∈ left.tables).foldl JoinTree.procure ⟨j, left, right⟩
    let (left', cols') := t.left.bindVars levels
    (.join t.node left' right, (cols.filter fun c => !(c.table ∈ left.tables)) ++ cols')

/-- The tree with the variables of its queries. -/
def PlanNode.withVars (node : PlanNode V) : PlanNode V := (node.bindVars node.height).1

/-- The variables of a plan are told apart exactly when no two columns that one subtree takes from outside
are ambiguous. -/
theorem varsApart_iff (node : PlanNode V) :
    node.VarsApart ↔ ∀ sub ∈ node.subtrees, ∀ c ∈ sub.outerCols, ∀ d ∈ sub.outerCols,
      c.table ≠ d.table ∨ c.name ≠ d.name → ¬ Ambiguous c d := by
  refine forall₂_congr fun sub _ => forall₂_congr fun c _ => forall₂_congr fun d _ => ?_
  rw [← joinVar_eq_iff]

/-- A leaf over one table, on one backend. -/
def aliasLeaf (name asName : String) (wheres : List (Expr V)) : MergeNode V where
  from_ := .table "db" name asName
  ast := .table "db" name asName
  wheres := wheres
  referTables := [tableInfo "db" name asName ⟨name, "id", none, ⟨name, 0, 0, .hash, "id", []⟩⟩]
  nonGlobalCnt := 1
  routeLen := 1

/-- The leaf over `C` with the condition `C.x = t_a.b + t.a_b`. -/
def sumLeaf : MergeNode ℕ :=
  aliasLeaf "C" "" [.cmp .equal (.col ⟨"", "C", "x"⟩)
    (.other [⟨"", "t_a", "b"⟩, ⟨"", "t", "a_b"⟩] List.sum)]

/-- The plan of `FROM (A AS t_a, B AS t), C WHERE C.x = t_a.b + t.a_b`. -/
def aliasPlan : PlanNode ℕ :=
  .join { shape := .comma, hasJoinExpr := false, isLeftJoin := false, joinOn := [], strategy := .nestLoop }
    (.join { shape := .comma, hasJoinExpr := false, isLeftJoin := false, joinOn := [], strategy := .nestLoop }
      (.merge (aliasLeaf "A" "t_a" [])) (.merge (aliasLeaf "B" "t" [])))
    (.merge sumLeaf)

/-- The query over `C` reads `t_a.b` for both columns: the plan has one variable for them. -/
theorem alias_variables_collide : ¬ aliasPlan.VarsApart ∧
    ∃ j left right, aliasPlan.withVars = .join j left right ∧ j.vars = [("t_a_b", 0)] ∧
      left.fields.map Field.cols = [[⟨"", "t_a", "b"⟩]] := by
  refine ⟨fun h => ?_, _, _, _, rfl, by decide +kernel, by decide +kernel⟩
  have hmem : PlanNode.merge sumLeaf ∈ aliasPlan.subtrees := by simp [aliasPlan, PlanNode.subtrees]
  exact h _ hmem ⟨"", "t_a", "b"⟩ (by decide +kernel) ⟨"", "t", "a_b"⟩ (by decide +kernel) (by decide)
    (by decide +kernel)

/-! ## What the joins supply -/

/-- The columns of the queries that no join of the tree supplies. -/
def PlanNode.free : PlanNode V → List ColName
  | .merge m => if m.routeLen = 0 then [] else m.outer m.queryCols
  | .join _ left right => (right.free.filter fun c => !(c.table ∈ left.tables)) ++ left.free

/-- The columns that a join takes from its left node for the queries of its right node. -/
def requests (left right : PlanNode V) : List ColName := right.free.filter fun c => c.table ∈ left.tables

/-- The names of the variables of a join. -/
def JoinNode.varNames (j : JoinNode V) : List String := j.vars.map Prod.fst

/-- Leaves whose queries have the same variables. -/
structure SameOuter (m m' : MergeNode V) : Prop where
  tables : m'.referTables = m.referTables
  routeLen : m'.routeLen = m.routeLen
  query : m'.outer m'.queryCols = m.outer m.queryCols
  field : m'.outer m'.fieldCols = m.outer m.fieldCols

/-- Trees whose queries and joins have the same variables. -/
inductive Like : PlanNode V → PlanNode V → Prop
  | merge {m m' : MergeNode V} (h : SameOuter m m') : Like (.merge m) (.merge m')
  | join {j j' : JoinNode V} {left right left' right' : PlanNode V} (strategy : j'.strategy = j.strategy)
    (vars : j'.varNames = j.varNames) (hleft : Like left left') (hright : Like right right') :
    Like (.join j left right) (.join j' left' right')

/-- The second tree has the variables that its joins supply. -/
inductive Binds : PlanNode V → PlanNode V → Prop
  | merge {m m' : MergeNode V} (h : SameOuter m m') : Binds (.merge m) (.merge m')
  | join {j j' : JoinNode V} {left right left' right' : PlanNode V} (strategy : j'.strategy = j.strategy)
    (vars : ∀ name, name ∈ j'.varNames ↔ name ∈ j.varNames ∨ name ∈ (requests left right).map joinVar)
    (hleft : Binds left left') (hright : Binds right right') : Binds (.join j left right) (.join j' left' right')

theorem SameOuter.trans {m m' m'' : MergeNode V} (h : SameOuter m m') (h' : SameOuter m' m'') : SameOuter m m'' :=
  ⟨h'.tables.trans h.tables, h'.routeLen.trans h.routeLen, h'.query.trans h.query, h'.field.trans h.field⟩

theorem Like.refl (n : PlanNode V) : Like n n := by
  induction n with
  | merge m => exact .merge ⟨rfl, rfl, rfl, rfl⟩
  | join j left right ihl ihr => exact .join rfl rfl ihl ihr

theorem Like.trans {n'' : PlanNode V} (h : Like n n') (h' : Like n' n'') : Like n n'' := by
  induction h generalizing n'' with
  | merge h =>
    cases h' with
    | merge h' => exact .merge (h.trans h')
  | join hs hv _ _ ihl ihr =>
    cases h' with
    | join hs' hv' hl hr => exact .join (hs'.trans hs) (hv'.trans hv) (ihl hl) (ihr hr)

theorem Like.tables (h : Like n n') : n'.tables = n.tables := by
  have hrefer : n'.referTables = n.referTables := by
    induction h with
    | merge h => exact h.tables
    | join _ _ _ _ ihl ihr => rw [PlanNode.referTables, ihl, ihr, PlanNode.referTables]
  rw [PlanNode.tables, hrefer, PlanNode.tables]

theorem Like.height (h : Like n n') : n'.height = n.height := by
  induction h with
  | merge h => rfl
  | join _ _ _ _ ihl ihr => rw [PlanNode.height, ihl, ihr, PlanNode.height]

theorem Like.free (h : Like n n') : n'.free = n.free := by
  induction h with
  | merge h => rw [PlanNode.free, h.routeLen, h.query, PlanNode.free]
  | join _ _ hl _ ihl ihr => rw [PlanNode.free, ihl, ihr, hl.tables, PlanNode.free]

theorem Like.binds {n'' : PlanNode V} (h : Like n n') (h' : Binds n' n'') : Binds n n'' := by
  induction h generalizing n'' with
  | merge h =>
    cases h' with
    | merge h' => exact .merge (h.trans h')
  | join hs hv hlike hlike' ihl ihr =>
    cases h' with
    | join hs' hv' hl hr =>
      rw [requests, hlike.tables, hlike'.free, hv] at hv'
      exact .join (hs'.trans hs) hv' (ihl hl) (ihr hr)

/-- A column of a table of the leaf is no variable. -/
theorem sameOuter_addCol {m : MergeNode V} (hc : c.table ∈ m.tables) :
    SameOuter m { m with fields := m.fields ++ [.scalar (.col c)] } := by
  have hcol : m.outer [c] = [] := by simp [MergeNode.outer, hc]
  have happend (xs ys : List ColName) : m.outer (xs ++ ys) = m.outer xs ++ m.outer ys := filter_append xs ys
  have hfield : m.outer ((m.fields ++ [Field.scalar (Scalar.col c)]).flatMap Field.cols ++ m.from_.cols) =
      m.outer m.fieldCols := by
    rw [flatMap_append, flatMap_singleton, happend, happend, Field.cols, Scalar.cols, hcol,
      append_nil, ← happend]
    rfl
  refine ⟨rfl, rfl, ?_, hfield⟩
  exact (happend _ _).trans ((congrArg (· ++ m.outer _) hfield).trans (happend _ _).symm)

/-- A column is never refused. -/
theorem like_pushSelectExpr (hc : c.table ∈ n.tables) :
    ∃ i n', n.pushSelectExpr (.scalar (.col c)) = .ok (i, n') ∧ Like n n' := by
  have hcheck (tables : List String) : checkTbInNode (Field.scalar (Scalar.col c : Scalar V)).tables tables =
      decide (c.table ∈ tables) := by
    simp [checkTbInNode, Field.tables, Field.cols, Scalar.cols, tablesIn,
      dedup_eq_self.2 (nodup_singleton _)]
  induction n with
  | merge m => exact ⟨_, _, rfl, .merge (sameOuter_addCol hc)⟩
  | join j left right ihl ihr =>
    rw [PlanNode.pushSelectExpr, hcheck]
    by_cases hleft : c.table ∈ left.tables
    · obtain ⟨i, left', heq, hlike⟩ := ihl hleft
      rw [decide_eq_true hleft, if_pos rfl, heq]
      exact ⟨_, _, rfl, .join rfl rfl hlike (.refl right)⟩
    · have hright : c.table ∈ right.tables := by grind [PlanNode.referTables, PlanNode.tables]
      obtain ⟨i, right', heq, hlike⟩ := ihr hright
      rw [decide_eq_false hleft, if_neg Bool.false_ne_true, if_neg (by simp [Field.isFunc]), heq]
      refine ⟨_, _, rfl, ?_⟩
      rw [hcheck, decide_eq_true hright, if_pos rfl]
      exact .join rfl rfl (.refl left) hlike

theorem like_fieldIndex (hc : c.table ∈ n.tables) :
    ∃ i n', n.fieldIndex (.scalar (.col c)) = .ok (i, n') ∧ Like n n' := by
  grind [like_pushSelectExpr, Like.refl, PlanNode.fieldIndex]

/-- What the variables of a join are after some requests. -/
structure JoinTree.Procures (cols : List ColName) (t t' : JoinTree V) : Prop where
  strategy : t'.node.strategy = t.node.strategy
  left : Like t.left t'.left
  right : t'.right = t.right
  vars : ∀ name, name ∈ t'.node.varNames ↔ name ∈ t.node.varNames ∨ name ∈ cols.map joinVar

theorem procures_procure {t : JoinTree V} (hc : c.table ∈ t.left.tables) : JoinTree.Procures [c] t (t.procure c) := by
  rw [JoinTree.procure]
  split
  · rename_i hany
    obtain ⟨var, hvar, heq⟩ := any_eq_true.1 hany
    refine ⟨rfl, .refl _, rfl, fun name => ⟨.inl, fun h => h.elim id fun hname => ?_⟩⟩
    grind [JoinNode.varNames]
  · obtain ⟨i, left, heq, hlike⟩ := like_fieldIndex hc
    rw [heq]
    refine ⟨rfl, hlike, rfl, fun name => ?_⟩
    simp [JoinNode.varNames, mem_append]

theorem procures_foldl {cols : List ColName} {t : JoinTree V} (hcols : ∀ c ∈ cols, c.table ∈ t.left.tables) :
    JoinTree.Procures cols t (cols.foldl JoinTree.procure t) := by
  induction cols generalizing t with
  | nil => exact ⟨rfl, .refl _, rfl, fun name => by simp⟩
  | cons c cols ih =>
    obtain ⟨hc, hcols⟩ := forall_mem_cons.1 hcols
    have h := procures_procure hc
    rw [← h.left.tables] at hcols
    have h' := ih hcols
    refine ⟨h'.strategy.trans h.strategy, h.left.trans h'.left, h'.right.trans h.right, fun name => ?_⟩
    rw [foldl_cons, h'.vars, h.vars, or_assoc]
    simp

theorem bindVars_spec {levels : ℕ} (h : n.height ≤ levels) :
    (n.bindVars levels).2 = n.free ∧ Binds n (n.bindVars levels).1 := by
  induction levels generalizing n with
  | zero => cases n <;> simp [PlanNode.height] at h
  | succ levels ih =>
    cases n with
    | merge m => exact ⟨rfl, .merge ⟨rfl, rfl, rfl, rfl⟩⟩
    | join j left right =>
      rw [PlanNode.height, Nat.succ_le_succ_iff, Nat.max_le] at h
      obtain ⟨hfree, hbound⟩ := ih h.2
      have hproc : JoinTree.Procures (requests left right) ⟨j, left, (right.bindVars levels).1⟩ _ :=
        procures_foldl fun c hc => of_decide_eq_true (mem_filter.1 hc).2
      obtain ⟨hfree', hbound'⟩ := ih (hproc.left.height.trans_le h.1)
      simp only [PlanNode.bindVars, hfree]
      rw [hproc.left.free] at hfree'
      exact ⟨congrArg _ hfree', .join hproc.strategy hproc.vars (hproc.left.binds hbound') hbound⟩

theorem binds_withVars (n : PlanNode V) : Binds n n.withVars := (bindVars_spec le_rfl).2

end Radon.Planner
