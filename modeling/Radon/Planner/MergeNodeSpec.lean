import Radon.Planner.PlanNode
import Radon.Planner.WhereSpec

/-!
# What filters do to a pushed down node

A filter becomes a condition of the query, and may add indexes to its route. The route of a node covers a
row of the join if one of its indexes is the one of the shard keys in the row.
-/

namespace Radon.Planner

variable {V : Type} (sem : Sem V) (r : Router) (H : Hasher)

variable {sem r H}

variable {info : TableInfo} {m m' : MergeNode V} {env : Env V} {filter : ExprInfo V}

theorem MergeNode.fetchIndexes_spec {vals : List SQLVal} (h : m.fetchIndexes r H info vals = .ok m') :
    (∃ idxs, m' = { m with indexes := m.indexes ++ idxs }) ∧
      ∀ v ∈ vals, ∃ idx ∈ m'.indexes, r.getIndex H info.database info.tableName v = .ok (some idx) := by
  induction vals generalizing m with
  | nil =>
    cases h
    exact ⟨⟨[], by simp⟩, fun _ hv => nomatch hv⟩
  | cons val vals ih =>
    obtain ⟨i, hi, h⟩ := except_bind_ok h
    cases i with
    | none => cases h
    | some idx => grind

theorem MergeNode.pushFilter_spec (h : m.pushFilter r H filter = .ok m') :
    ∃ idxs, m' = { m with wheres := m.wheres ++ [filter.expr], indexes := m.indexes ++ idxs } := by
  simp only [MergeNode.pushFilter] at h
  split at h
  · split at h
    · split at h
      · grind [fetchIndexes_spec, addWhere]
      · cases h
        exact ⟨[], by simp [MergeNode.addWhere]⟩
    · cases h
  · cases h
    exact ⟨[], by simp [MergeNode.addWhere]⟩

theorem MergeNode.pushKeyFilter_spec {table field : String} (h : m.pushKeyFilter r H filter table field = .ok m') :
    ∃ idxs, m' = { m with wheres := m.wheres ++ [filter.expr], indexes := m.indexes ++ idxs } := by
  simp only [MergeNode.pushKeyFilter] at h
  split at h
  · split at h
    · grind [fetchIndexes_spec, addWhere]
    · cases h
      exact ⟨[], by simp [MergeNode.addWhere]⟩
  · cases h

variable {filters : List (ExprInfo V)}

theorem MergeNode.pushFilters_spec {m' : MergeNode V} (h : m.pushFilters r H filters = .ok m') :
    ∃ idxs, m' = { m with wheres := m.wheres ++ filters.map ExprInfo.expr, indexes := m.indexes ++ idxs } := by
  induction filters generalizing m with
  | nil =>
    cases h
    exact ⟨[], by simp⟩
  | cons filter filters ih =>
    obtain ⟨m₁, hm₁, h⟩ := except_bind_ok h
    grind [pushFilter_spec]

end Radon.Planner
