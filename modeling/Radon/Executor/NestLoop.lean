import Radon.Executor.SortMerge
import Radon.Planner.BindVars

/-!
# Nested loops

A nested loop runs the queries of its right node once for every row of its left node that meets the
conditions of the join, with the variables of that row. If there is no such row, `getFields` asks the right
node for the names of its columns with queries that return no row.

A query is sent if all its variables are supplied. The backends answer it with any rows or with an error.
-/

namespace Radon.Executor

open Planner List

variable {ρ V W α β : Type}

/-! ## Runs with errors -/

/-- An error of the executor: `FetchBindVar` finds no variable of the name, or any other error. -/
inductive ExecError
  | missing (name : String)
  | other (text : String)

/-- A step and then another one, which an error of the first one prevents. A step is the set of its
outcomes. -/
def AndThen (p : Except ExecError α → Prop) (q : α → Except ExecError β → Prop) (out : Except ExecError β) : Prop :=
  ∃ first, p first ∧
    match first with
    | .error e => out = .error e
    | .ok a => q a out

/-- The outcome is no missing variable. -/
def Supplied (out : Except ExecError α) : Prop := ∀ name, out ≠ .error (.missing name)

variable {p : Except ExecError α → Prop} {names : List String} {n left right n' : PlanNode W}
    {j : JoinNode W} {out : Except ExecError (List ρ)}

theorem AndThen.supplied {q : α → Except ExecError β → Prop}
    {out : Except ExecError β} (h : AndThen p q out) (hp : ∀ first, p first → Supplied first)
    (hq : ∀ a, q a out → Supplied out) : Supplied out := by grind [AndThen, Supplied]

theorem AndThen.error {e : ExecError} (h : p (.error e))
    (q : α → Except ExecError β → Prop) : AndThen p q (.error e) := ⟨_, h, rfl⟩

theorem AndThen.ok {a : α} (h : p (.ok a)) {q : α → Except ExecError β → Prop}
    {out : Except ExecError β} (hq : q a out) : AndThen p q out := ⟨_, h, hq⟩

theorem AndThen.of_ok {q : α → Except ExecError β → Prop} {b : β} (h : AndThen p q (.ok b)) :
    ∃ a, p (.ok a) ∧ q a (.ok b) := by
  obtain ⟨first, hp, hq⟩ := h
  cases first with
  | error e => cases hq
  | ok a => exact ⟨a, hp, hq⟩

/-! ## The executor -/

/-- The first variable of a query that is not among the given ones. -/
def missingVar (names : List String) (cols : List ColName) : Option String :=
  (cols.map joinVar).find? fun name => name ∉ names

/-- What becomes of a query. -/
def Sent (missing : Option String) (out : Except ExecError α) : Prop :=
  match missing with
  | some name => out = .error (.missing name)
  | none => Supplied out

/-- `getFields` of both kinds of nodes: a join does not add its own variables. -/
def getFields (names : List String) : PlanNode W → Except ExecError Unit → Prop
  | .merge m, out =>
    if m.routeLen = 0 then out = .error (.other "runtime error: index out of range")
    else Sent (missingVar names (m.outer m.fieldCols)) out
  | .join _ left right, out => AndThen (getFields names left) (fun _ => getFields names right) out

/-- The rows within the limit. -/
def limited (maxrow : ℕ) (rows : List ρ) : Except ExecError (List ρ) :=
  if maxrow < rows.length then .error (.other (tooManyRows maxrow)) else .ok rows

section Engine

variable [LinearOrder V] (view : RowView ρ V) (join : JoinNode W → ρ → Option ρ → ρ) (maxrow : ℕ)

/-- The rows of a left row with the rows that the right node returns for it. -/
def matchRows (j : JoinNode W) (lrow : ρ) (rrows : List ρ) : List ρ :=
  (rrows.filter fun rrow => j.rightTmpCols.all fun idx => cell (view.cells rrow) idx = ⊥).map
      (fun rrow => join j lrow (some rrow)) ++
    if rrows.isEmpty then leftAndNil j (join j) [lrow] else []

/-- The right node for one left row: it is run if the row meets the conditions of the join. The columns are
known from then on. -/
def rightRun (j : JoinNode W) (right : Bool → Except ExecError (List ρ) → Prop) (lrow : ρ) (wantfields : Bool)
    (out : Except ExecError (List ρ × Bool)) : Prop :=
  if j.leftTmpCols.all fun idx => view.castToBool lrow idx then
    AndThen (right wantfields) (fun rrows out => out = .ok (rrows, false)) out
  else out = .ok ([], wantfields)

/-- The loop of `execBindVars` over the left rows. -/
def loopLeft (j : JoinNode W) (right : Bool → Except ExecError (List ρ) → Prop) :
    List ρ → Bool → List ρ → Except ExecError (List ρ × Bool) → Prop
  | [], wantfields, rows, out => out = .ok (rows, wantfields)
  | lrow :: lrows, wantfields, rows, out =>
    AndThen (rightRun view j right lrow wantfields) (fun (rrows, wantfields) =>
      AndThen (fun res => res = limited maxrow (rows ++ matchRows view join j lrow rrows))
        (fun rows => loopLeft j right lrows wantfields rows)) out

/-- `execBindVars` of both kinds of nodes, with the names of the variables that are supplied. -/
def execBindVars : List String → Bool → PlanNode W → Except ExecError (List ρ) → Prop
  | names, _, .merge m, out =>
    Sent (if m.routeLen = 0 then none else missingVar names (m.outer m.queryCols)) out
  | names, wantfields, .join j left right, out =>
    AndThen (execBindVars names wantfields left) (fun lrows =>
      AndThen (loopLeft view join maxrow j
          (fun wantfields => execBindVars (names ++ j.varNames) wantfields right) lrows wantfields [])
        (fun (rows, wantfields) =>
          AndThen (fun out => if wantfields then getFields (names ++ j.varNames) right out else out = .ok ())
            (fun _ out => out = .ok rows))) out

/-- The rows of a join whose nodes have run side by side. -/
def Joined (j : JoinNode W) (lrows rrows : List ρ) (out : Except ExecError (List ρ)) : Prop :=
  if lrows.isEmpty then out = .ok []
  else if rrows.isEmpty then out = limited maxrow (leftAndNil j (join j) lrows)
  else if j.keysPlaced = false then out = .error (.other "runtime error: index out of range")
  else if j.strategy = .cartesian then
    out = limited maxrow (lrows.flatMap fun lrow => rrows.map fun rrow => join j lrow (some rrow))
  else ∃ res, SortMergeJoin view j (join j) maxrow lrows rrows res ∧ out = res.mapError .other

/-- The nodes of a join side by side: an error of one of them is the error of the join. -/
def sideBySide (j : JoinNode W) (lout rout out : Except ExecError (List ρ)) : Prop :=
  match lout, rout with
  | .ok lrows, .ok rrows => Joined view join maxrow j lrows rrows out
  | .error e, .ok _ => out = .error e
  | .ok _, .error e => out = .error e
  | .error e, .error e' => out = .error e ∨ out = .error e'

/-- `Execute` of both kinds of nodes, without the steps of the proxy that follow it. The query of a leaf that
runs by itself is sent as it is. -/
def execute : PlanNode W → Except ExecError (List ρ) → Prop
  | .merge _, out => Supplied out
  | .join j left right, out =>
    if j.strategy = .nestLoop then execBindVars view join maxrow [] true (.join j left right) out
    else ∃ lout rout, execute left lout ∧ execute right rout ∧ sideBySide view join maxrow j lout rout out

end Engine

/-! ## What the variables have to be -/

/-- The variables of the field queries are among the given ones. -/
def FieldsIn (names : List String) (n : PlanNode W) : Prop :=
  ∀ m ∈ n.leaves, ∀ c ∈ m.outer m.fieldCols, joinVar c ∈ names

/-- The variables of the queries are given or supplied by the joins. -/
def Covered : List String → PlanNode W → Prop
  | names, .merge m => m.routeLen ≠ 0 → ∀ c ∈ m.outer m.queryCols, joinVar c ∈ names
  | names, .join j left right => Covered names left ∧ Covered (names ++ j.varNames) right

/-- Every join on the left edge of the tree supplies the variables of the field queries on its right. -/
def EdgeSupplied : PlanNode W → Prop
  | .merge _ => True
  | .join j left right => EdgeSupplied left ∧ FieldsIn j.varNames right

theorem missingVar_eq_none {cols : List ColName} : missingVar names cols = none ↔ ∀ c ∈ cols, joinVar c ∈ names := by
  simp [missingVar]

theorem Sent.supplied {missing : Option String} {out : Except ExecError α} (h : Sent missing out)
    (hnone : missing = none) : Supplied out := by
  subst hnone
  exact h

theorem supplied_ok (a : α) : Supplied (.ok a : Except ExecError α) := nofun

theorem supplied_limited (maxrow : ℕ) (rows : List ρ) : Supplied (limited maxrow rows) := by
  grind [Supplied, limited]

theorem FieldsIn.mono {names' : List String} (h : FieldsIn names n) (hsub : names ⊆ names') : FieldsIn names' n :=
  fun m hm c hc => hsub (h m hm c hc)

theorem fieldsIn_join :
    FieldsIn names (.join j left right) ↔ FieldsIn names left ∧ FieldsIn names right := forall_mem_append

theorem getFields_supplied (h : FieldsIn names n)
    {out : Except ExecError Unit} (hout : getFields names n out) : Supplied out := by
  induction n generalizing out with
  | merge m =>
    rw [getFields] at hout
    split_ifs at hout
    · rw [hout]
      exact nofun
    · exact hout.supplied (missingVar_eq_none.2 (h m (mem_singleton.2 rfl)))
  | join j left right ihl ihr =>
    rw [fieldsIn_join] at h
    exact AndThen.supplied hout (fun _ => ihl h.1) fun _ => ihr h.2

theorem getFields_ok (hqueries : ∀ m ∈ n.leaves, m.routeLen ≠ 0)
    (h : FieldsIn names n) : getFields names n (.ok ()) := by
  induction n with
  | merge m =>
    rw [getFields, if_neg (hqueries m (mem_singleton.2 rfl)),
      missingVar_eq_none.2 (h m (mem_singleton.2 rfl))]
    exact supplied_ok ()
  | join j left right ihl ihr => grind [AndThen.ok, PlanNode.leaves, getFields, FieldsIn]

theorem getFields_merge_missing {m : MergeNode W} (hlen : m.routeLen ≠ 0) {name : String}
    (h : missingVar names (m.outer m.fieldCols) = some name) : getFields names (.merge m) (.error (.missing name)) := by
  rw [getFields, if_neg hlen, h]
  rfl

theorem getFields_missing (hqueries : ∀ m ∈ n.leaves, m.routeLen ≠ 0)
    (h : ¬ FieldsIn names n) : ∃ name, getFields names n (.error (.missing name)) := by
  induction n with
  | merge m =>
    rw [FieldsIn, PlanNode.leaves, forall_mem_singleton, ← missingVar_eq_none] at h
    obtain ⟨name, hname⟩ := Option.ne_none_iff_exists'.1 h
    exact ⟨name, getFields_merge_missing (hqueries m (mem_singleton.2 rfl)) hname⟩
  | join j left right ihl ihr =>
    grind [AndThen.ok, getFields_ok, AndThen.error, PlanNode.leaves, getFields, FieldsIn]

section Engine

variable [LinearOrder V] {view : RowView ρ V} {join : JoinNode W → ρ → Option ρ → ρ} {maxrow : ℕ}

variable {wantfields : Bool}

/-- The loop over the left rows misses no variable if the right node misses none. -/
theorem loopLeft_supplied {right : Bool → Except ExecError (List ρ) → Prop}
    (hright : ∀ wantfields out, right wantfields out → Supplied out) {lrows : List ρ}
    {rows : List ρ} {out : Except ExecError (List ρ × Bool)}
    (h : loopLeft view join maxrow j right lrows wantfields rows out) : Supplied out := by
  induction lrows generalizing wantfields rows with
  | nil =>
    rw [loopLeft] at h
    exact h ▸ supplied_ok _
  | cons lrow lrows ih =>
    rw [loopLeft] at h
    refine h.supplied (fun first hfirst => ?_) fun res h => ?_
    · rw [rightRun] at hfirst
      split_ifs at hfirst
      · exact hfirst.supplied (fun out => hright _ out) fun _ heq => heq ▸ supplied_ok _
      · exact hfirst ▸ supplied_ok _
    · exact AndThen.supplied h (fun _ hrows => hrows ▸ supplied_limited _ _) fun _ => ih

/-- One step of a nested loop: no variable is missing if none is missing on the left, in the queries of the
right node and in its field queries. -/
theorem execBindVars_join_supplied
    (hleft : ∀ out, execBindVars view join maxrow names wantfields left out → Supplied out) (hright : ∀ wantfields out,
      execBindVars view join maxrow (names ++ j.varNames) wantfields right out → Supplied out)
    (hfields : FieldsIn (names ++ j.varNames) right)
    (h : execBindVars view join maxrow names wantfields (.join j left right) out) : Supplied out := by
  rw [execBindVars] at h
  refine h.supplied hleft fun lrows h => ?_
  refine AndThen.supplied h (fun _ => loopLeft_supplied hright) fun res h => ?_
  refine AndThen.supplied h (fun first hfirst => ?_) fun _ heq => heq ▸ supplied_ok _
  grind [getFields_supplied, supplied_ok]

theorem execBindVars_merge_supplied {m : MergeNode W} (hcovered : Covered names (.merge m))
    (h : execBindVars view join maxrow names wantfields (.merge m) out) : Supplied out := by
  rw [execBindVars] at h
  refine h.supplied ?_
  split_ifs with hlen
  · rfl
  · exact missingVar_eq_none.2 (hcovered hlen)

/-- A nested loop misses no variable if those of its queries and of its field queries are given. -/
theorem execBindVars_supplied (hcovered : Covered names n) (hfields : FieldsIn names n)
    (h : execBindVars view join maxrow names wantfields n out) : Supplied out := by
  induction n generalizing names wantfields out with
  | merge m => exact execBindVars_merge_supplied hcovered h
  | join j left right ihl ihr =>
    rw [fieldsIn_join] at hfields
    have hright := hfields.2.mono (subset_append_left names j.varNames)
    exact execBindVars_join_supplied (fun _ => ihl hcovered.1 hfields.1) (fun _ _ => ihr hcovered.2 hright) hright h

/-- The left edge of the tree runs without variables. -/
theorem execBindVars_edge_supplied (hcovered : Covered [] n) (hedge : EdgeSupplied n)
    (h : execBindVars view join maxrow [] wantfields n out) : Supplied out := by
  induction n generalizing wantfields out with
  | merge m => exact execBindVars_merge_supplied hcovered h
  | join j left right ihl _ =>
    exact execBindVars_join_supplied (fun _ => ihl hcovered.1 hedge.1)
      (fun _ _ => execBindVars_supplied hcovered.2 hedge.2) hedge.2 h

/-- A run without rows ends with the field queries of the right node. -/
theorem execBindVars_join_empty (hleft : execBindVars view join maxrow [] true left (.ok []))
    {out : Except ExecError Unit} (hright : getFields j.varNames right out) :
    execBindVars view join maxrow [] true (.join j left right) (out.map fun _ => []) := by
  rw [execBindVars]
  refine ⟨.ok [], hleft, .ok ([], true), rfl, out, hright, ?_⟩
  cases out <;> rfl

theorem execBindVars_join_missing (hleft : execBindVars view join maxrow [] true left (.ok []))
    {name : String} (hright : getFields j.varNames right (.error (.missing name))) :
    execBindVars view join maxrow [] true (.join j left right) (.error (.missing name)) :=
  execBindVars_join_empty hleft hright

theorem execBindVars_edge_empty (hqueries : ∀ m ∈ n.leaves, m.routeLen ≠ 0)
    (hcovered : Covered [] n) (hedge : EdgeSupplied n) : execBindVars view join maxrow [] true n (.ok []) := by
  induction n with
  | merge m =>
    have hlen := hqueries m (mem_singleton.2 rfl)
    rw [execBindVars, if_neg hlen, missingVar_eq_none.2 (hcovered hlen)]
    exact supplied_ok []
  | join j left right ihl _ =>
    obtain ⟨hl, hr⟩ := forall_mem_append.1 hqueries
    exact execBindVars_join_empty (ihl hl hcovered.1 hedge.1) (getFields_ok hr hedge.2)

theorem execBindVars_edge_missing (hqueries : ∀ m ∈ n.leaves, m.routeLen ≠ 0) (hcovered : Covered [] n)
    (hedge : ¬ EdgeSupplied n) : ∃ name, execBindVars view join maxrow [] true n (.error (.missing name)) := by
  induction n with
  | merge m => exact absurd trivial hedge
  | join j left right ihl _ =>
    obtain ⟨hl, hr⟩ := forall_mem_append.1 hqueries
    by_cases hleft : EdgeSupplied left
    · grind [getFields_missing, execBindVars_join_missing, execBindVars_edge_empty, EdgeSupplied, Covered]
    · grind [execBindVars, Covered, AndThen]

end Engine

/-! ## Plan trees -/

/-- The nested loops of a tree are queries of their own: the tree of each supplies the variables of its
queries. -/
def NestScoped : PlanNode W → Prop
  | .merge _ => True
  | .join j left right =>
    if j.strategy = .nestLoop then (PlanNode.join j left right).free = []
    else NestScoped left ∧ NestScoped right

/-- Every join on the left edge of the tree takes the columns of the field queries on its right from its own
left node. -/
def TakesFields : PlanNode W → Prop
  | .merge _ => True
  | .join j left right =>
    TakesFields left ∧ FieldsIn (j.varNames ++ (requests left right).map joinVar) right

/-- The condition of `TakesFields` for the nested loops of a tree. -/
def FieldsSupplied : PlanNode W → Prop
  | .merge _ => True
  | .join j left right =>
    if j.strategy = .nestLoop then TakesFields (.join j left right)
    else FieldsSupplied left ∧ FieldsSupplied right

theorem fieldsIn_binds (h : Binds n n') (names : List String) : FieldsIn names n' ↔ FieldsIn names n := by
  induction h with
  | merge h => rw [FieldsIn, FieldsIn, PlanNode.leaves, PlanNode.leaves, forall_mem_singleton,
      forall_mem_singleton, h.field]
  | join _ _ _ _ ihl ihr => rw [fieldsIn_join, fieldsIn_join, ihl, ihr]

theorem edgeSupplied_binds (h : Binds n n') : EdgeSupplied n' ↔ TakesFields n := by
  induction h with
  | merge h => exact Iff.rfl
  | join _ hvars _ hright ihl _ =>
    rw [EdgeSupplied, TakesFields, ihl, fieldsIn_binds hright]
    refine and_congr_right fun _ => forall₄_congr fun m _ c _ => ?_
    rw [hvars, mem_append]

theorem covered_binds (h : Binds n n') (hfree : ∀ c ∈ n.free, joinVar c ∈ names) : Covered names n' := by
  induction h generalizing names with
  | @merge m m' h =>
    intro hlen
    rw [h.routeLen] at hlen
    rwa [PlanNode.free, if_neg hlen, ← h.query] at hfree
  | @join j j' left right left' right' _ hvars _ _ ihl ihr =>
    rw [PlanNode.free, forall_mem_append] at hfree
    refine ⟨ihl hfree.2, ihr fun c hc => mem_append.2 ?_⟩
    by_cases hleft : c.table ∈ left.tables
    · grind [requests]
    · exact .inl (hfree.1 c (mem_filter.2 ⟨hc, by simp [hleft]⟩))

theorem leaves_binds (h : Binds n n') (hqueries : ∀ m ∈ n.leaves, m.routeLen ≠ 0) :
    ∀ m ∈ n'.leaves, m.routeLen ≠ 0 := by
  induction h with
  | merge h =>
    rw [PlanNode.leaves, forall_mem_singleton] at hqueries ⊢
    rwa [h.routeLen]
  | join _ _ _ _ ihl ihr => grind [PlanNode.leaves]

section Engine

variable [LinearOrder V] {view : RowView ρ V} {join : JoinNode W → ρ → Option ρ → ρ} {maxrow : ℕ}

theorem joined_supplied {lrows rrows : List ρ} (h : Joined view join maxrow j lrows rrows out) : Supplied out := by
  unfold Joined at h
  split_ifs at h
  · exact h ▸ supplied_ok []
  · exact h ▸ supplied_limited _ _
  · exact h ▸ nofun
  · exact h ▸ supplied_limited _ _
  · obtain ⟨res, _, heq⟩ := h
    subst heq
    cases res <;> exact nofun

theorem sideBySide_supplied {lout rout : Except ExecError (List ρ)}
    (h : sideBySide view join maxrow j lout rout out) (hl : Supplied lout) (hr : Supplied rout) : Supplied out := by
  intro name heq
  subst heq
  cases lout with
  | error e =>
    cases rout with
    | error e' =>
      obtain h | h := h
      · exact hl name h.symm
      · exact hr name h.symm
    | ok rrows => exact hl name h.symm
  | ok lrows =>
    cases rout with
    | error e' => exact hr name h.symm
    | ok rrows => exact joined_supplied h name rfl

theorem execute_supplied (h : Binds n n') (hscoped : NestScoped n) (hfields : FieldsSupplied n)
    (hout : execute view join maxrow n' out) : Supplied out := by
  induction h generalizing out with
  | merge h => exact hout
  | join hstrategy hvars hleft hright ihl ihr =>
    rw [execute, hstrategy] at hout
    rw [NestScoped] at hscoped
    rw [FieldsSupplied] at hfields
    split_ifs at hout hscoped hfields
    · have hbinds := Binds.join hstrategy hvars hleft hright
      exact execBindVars_edge_supplied (covered_binds hbinds (by rw [hscoped]; exact nofun))
        ((edgeSupplied_binds hbinds).2 hfields) hout
    · grind [sideBySide_supplied]

/-- A tree has a run without rows, or a run in which a variable is missing. -/
theorem execute_empty_or_missing (view : RowView ρ V) (join : JoinNode W → ρ → Option ρ → ρ) (maxrow : ℕ)
    (h : Binds n n') (hscoped : NestScoped n) (hqueries : ∀ m ∈ n.leaves, m.routeLen ≠ 0) :
    (FieldsSupplied n ∧ execute view join maxrow n' (.ok [])) ∨
      ∃ name, execute view join maxrow n' (.error (.missing name)) := by
  induction h with
  | merge h => exact .inl ⟨trivial, supplied_ok []⟩
  | @join j j' left right left' right' hstrategy hvars hleft hright ihl ihr =>
    have hbinds := Binds.join hstrategy hvars hleft hright
    rw [NestScoped] at hscoped
    rw [FieldsSupplied]
    simp only [execute, hstrategy]
    split_ifs at hscoped ⊢
    · have hqueries' := leaves_binds hbinds hqueries
      have hcovered : Covered [] (.join j' left' right') := covered_binds hbinds (by rw [hscoped]; exact nofun)
      rw [← edgeSupplied_binds hbinds]
      by_cases hedge : EdgeSupplied (.join j' left' right')
      · grind [execBindVars_edge_empty]
      · exact .inr (execBindVars_edge_missing hqueries' hcovered hedge)
    · obtain ⟨hl, hr⟩ := forall_mem_append.1 hqueries
      obtain ⟨hfl, hrunl⟩ | ⟨name, hrunl⟩ := ihl hscoped.1 hl <;>
      obtain ⟨hfr, hrunr⟩ | ⟨name', hrunr⟩ := ihr hscoped.2 hr
      · exact .inl ⟨⟨hfl, hfr⟩, _, _, hrunl, hrunr, rfl⟩
      · exact .inr ⟨name', _, _, hrunl, hrunr, rfl⟩
      · exact .inr ⟨name, _, _, hrunl, hrunr, rfl⟩
      · exact .inr ⟨name, _, _, hrunl, hrunr, .inl rfl⟩

/-- Whatever the rows and the engine, no variable is missing in any run exactly if the joins take the columns
of the field queries. -/
theorem variables_supplied_iff (view : RowView ρ V) (join : JoinNode W → ρ → Option ρ → ρ) (maxrow : ℕ)
    {root : PlanNode W} (hscoped : NestScoped root) (hqueries : ∀ m ∈ root.leaves, m.routeLen ≠ 0) :
    (∀ out, execute view join maxrow root.withVars out → Supplied out) ↔ FieldsSupplied root := by
  have hbinds := binds_withVars root
  refine ⟨fun h => ?_, fun hfields out => execute_supplied hbinds hscoped hfields⟩
  obtain ⟨hfields, _⟩ | ⟨name, hrun⟩ := execute_empty_or_missing view join maxrow hbinds hscoped hqueries
  · exact hfields
  · exact absurd rfl (h _ hrun name)

end Engine

/-- A join without a condition. -/
def cross : JoinNode ℕ where
  shape := .join .inner none
  hasJoinExpr := true
  isLeftJoin := false
  joinOn := []

/-- The select list `t1.a + t3.b, t2.a + t3.b`. -/
def sums : List (Scalar ℕ) :=
  ["t1", "t2"].map fun table => .other [⟨"", table, "a"⟩, ⟨"", "t3", "b"⟩] List.sum

/-- `FROM t1 JOIN (t2 JOIN t3)`. -/
def rightDeep : PlanNode ℕ :=
  .join cross (.merge (aliasLeaf "t1" "" []))
    (.join cross (.merge (aliasLeaf "t2" "" [])) (.merge (aliasLeaf "t3" "" [])))

/-- `FROM (t1 JOIN t2) JOIN t3`. -/
def leftDeep : PlanNode ℕ :=
  .join cross (.join cross (.merge (aliasLeaf "t1" "" [])) (.merge (aliasLeaf "t2" "" [])))
    (.merge (aliasLeaf "t3" "" []))

theorem left_deep_supplied : ∃ root, pushSelect leftDeep.referTables sums leftDeep = .ok root ∧
    ∀ (view : RowView (List ℕ) ℕ) join maxrow out, execute view join maxrow root.withVars out → Supplied out := by
  refine ⟨_, rfl, fun view join maxrow => (variables_supplied_iff view join maxrow ?_ ?_).2 ?_⟩
  · rfl
  · decide +kernel
  · exact ⟨⟨trivial, by unfold FieldsIn; decide +kernel⟩, by unfold FieldsIn; decide +kernel⟩

/-- If `t1` has no rows, the field query of `t3` is not given the column of `t2`. -/
theorem right_deep_missing : ∃ root, pushSelect rightDeep.referTables sums rightDeep = .ok root ∧
    ∀ (view : RowView (List ℕ) ℕ) join maxrow,
      execute view join maxrow root.withVars (.error (.missing "t2_a")) := by
  refine ⟨_, rfl, fun view join maxrow => ?_⟩
  refine execBindVars_join_missing ?_ (AndThen.ok (a := ()) ?_ (getFields_merge_missing ?_ ?_))
  · exact supplied_ok []
  · exact supplied_ok ()
  · decide +kernel
  · decide +kernel

/-! ## The limit of the rows -/

section Engine

variable [LinearOrder V] {view : RowView ρ V} {join : JoinNode W → ρ → Option ρ → ρ} {maxrow : ℕ} {rows : List ρ}

theorem limited_ok {rows' : List ρ} (h : .ok rows = limited maxrow rows') : rows.length ≤ maxrow := by
  unfold limited at h
  split_ifs at h with hlimit
  cases h
  exact Nat.le_of_not_lt hlimit

/-- The rows stay within the limit from one left row to the next. -/
theorem loopLeft_length_le {right : Bool → Except ExecError (List ρ) → Prop} {lrows : List ρ} {res : List ρ × Bool}
    {wantfields : Bool} (h : loopLeft view join maxrow j right lrows wantfields rows (.ok res))
    (hrows : rows.length ≤ maxrow) : res.1.length ≤ maxrow := by
  induction lrows generalizing wantfields rows with
  | nil =>
    cases h
    exact hrows
  | cons lrow lrows ih =>
    obtain ⟨_, -, h⟩ := AndThen.of_ok h
    obtain ⟨rows', hlimit, h⟩ := AndThen.of_ok h
    exact ih h (limited_ok hlimit)

theorem joined_length_le {lrows rrows : List ρ} (h : Joined view join maxrow j lrows rrows (.ok rows)) :
    rows.length ≤ maxrow := by
  unfold Joined at h
  split_ifs at h
  · cases h
    exact Nat.zero_le _
  · exact limited_ok h
  · exact limited_ok h
  · obtain ⟨_, ⟨lsorted, rsorted, out, failed, _, _, hcalls⟩, heq⟩ := h
    cases failed with
    | true => cases heq
    | false =>
      cases heq
      exact (hcalls.inv (Nat.zero_le maxrow)).fits rfl

/-- Whatever the strategies of the joins, the answers of the backends and the order of the goroutines, a tree of
joins returns at most `maxrow` rows. -/
theorem execute_length_le (h : execute view join maxrow (.join j left right) (.ok rows)) :
    rows.length ≤ maxrow := by
  rw [execute] at h
  split_ifs at h
  · rw [execBindVars] at h
    obtain ⟨lrows, -, h⟩ := AndThen.of_ok h
    obtain ⟨res, hloop, h⟩ := AndThen.of_ok h
    obtain ⟨_, -, h⟩ := AndThen.of_ok h
    cases h
    exact loopLeft_length_le hloop (Nat.zero_le maxrow)
  · obtain ⟨lout, rout, -, -, h⟩ := h
    cases lout with
    | error e => cases rout <;> rcases h with h | h <;> cases h
    | ok lrows =>
      cases rout with
      | error e => cases h
      | ok rrows => exact joined_length_le h

end Engine

/-- The product of two tables. -/
def product : PlanNode ℕ := .join { cross with strategy := .cartesian } (.merge (aliasLeaf "t1" "" []))
  (.merge (aliasLeaf "t2" "" []))

/-- A product of one row within a limit of one row. -/
theorem product_within_limit : ∃ rows, execute (valueRows numberSem) (fun _ lrow _ => lrow) 1 product (.ok rows) ∧
    rows ≠ [] ∧ rows.length ≤ 1 := by
  have h : execute (valueRows numberSem) (fun _ lrow _ => lrow) 1 product (.ok [[]]) :=
    ⟨.ok [[]], .ok [[]], supplied_ok _, supplied_ok _, rfl⟩
  exact ⟨_, h, List.cons_ne_nil _ _, execute_length_le h⟩

end Radon.Executor
