import Mathlib.Data.List.Nodup
import Radon.Collections.HashTable

/-!
# The UNION engine

`UNION DISTINCT` puts the rows of both results into a hash table. The key of a row is the bytes of its
columns one after the other, without their lengths and with nothing for NULL, and only the first row with
a key is kept.
-/

namespace Radon.Executor

open Collections List

/-- `sqltypes.Value`: NULL, or the bytes of a value with its type. -/
inductive Value (T : Type)
  | null
  | val (typ : T) (bytes : List UInt8)
  deriving DecidableEq

variable {T F B : Type}

/-- `Value.Raw`. -/
def Value.raw : Value T → List UInt8
  | null => []
  | val _ bytes => bytes

/-- `sqltypes.Result` without the insert id. A result with rows says that it has some. -/
structure Result (F T : Type) where
  fields : List F
  rows : List (List (Value T))
  rowsAffected : ℕ
  counted : rowsAffected = 0 → rows = []

/-- `Result.AppendResult`, for a result with fields. -/
def Result.appendResult (result src : Result F T) : Result F T :=
  if src.rowsAffected = 0 ∧ src.fields = [] then result
  else
    { result with
      rowsAffected := result.rowsAffected + src.rowsAffected
      rows := result.rows ++ src.rows
      counted := fun h => by
        rw [Nat.add_eq_zero_iff] at h
        rw [result.counted h.1, src.counted h.2, List.append_nil] }

theorem Result.rows_appendResult (result src : Result F T) :
    (result.appendResult src).rows = result.rows ++ src.rows := by grind [counted, appendResult]

/-- The key of a row in `UnionEngine.Execute`. -/
def rowKey (row : List (Value T)) : List UInt8 := row.flatMap Value.raw

/-- The loop of `UnionEngine.Execute` over the rows. -/
def fillTable [DecidableEq B] (hash : List UInt8 → B) :
    List (List (Value T)) → HashTable B (List UInt8) (List (Value T)) →
      HashTable B (List UInt8) (List (Value T))
  | [], table => table
  | row :: rows, table =>
    if (table.get hash (rowKey row)).isSome then fillTable hash rows table
    else fillTable hash rows (table.put hash (rowKey row) row)

/-- The size of the table is the number of its entries. -/
theorem size_fillTable [DecidableEq B] (hash : List UInt8 → B) (rows : List (List (Value T)))
    (table : HashTable B (List UInt8) (List (Value T))) (h : table.size = table.entries.length) :
    (fillTable hash rows table).size = (fillTable hash rows table).entries.length := by
  induction rows generalizing table with
  | nil => exact h
  | cons row rows ih =>
    rw [fillTable]
    split_ifs with hseen
    · exact ih table h
    · refine ih _ ?_
      have hget : table.get hash (rowKey row) = none := by simpa using hseen
      rw [(table.entries_put_perm hash row hget).length_eq, length_append, ← h]
      rfl

/-- `UnionNode.Typ`. -/
inductive UnionType
  | distinct
  | all
  deriving DecidableEq

/-- `UnionEngine.Execute` on the results of its children, up to `ExecSubPlan`. -/
def unionResults [DecidableEq B] (hash : List UInt8 → B) (typ : UnionType) (left right : Result F T) :
    Except String (Result F T) :=
  if left.fields.length ≠ right.fields.length then
    .error "unsupported: the.used.'select'.statements.have.a.different.number.of.columns"
  else
    let both := left.appendResult right
    if both.rows = [] then .ok ⟨left.fields, [], 0, fun _ => rfl⟩
    else
      match typ with
      | .distinct =>
        let table := fillTable hash both.rows .empty
        .ok ⟨left.fields, table.entries.flatMap fun entry => entry.2.head?.toList, table.size, fun h => by
          rw [size_fillTable hash both.rows .empty rfl, List.length_eq_zero_iff] at h
          rw [h, List.flatMap_nil]⟩
      | .all => .ok ⟨left.fields, both.rows, both.rowsAffected, both.counted⟩

/-- `UnionEngine.Execute`; without rows the sub-plans are left out. -/
def UnionEngine.execute [DecidableEq B] (hash : List UInt8 → B) (typ : UnionType)
    (execSubPlan : Result F T → Except String (Result F T)) (left right : Result F T) :
    Except String (Result F T) := do
  let result ← unionResults hash typ left right
  if (left.appendResult right).rows = [] then return result
  else execSubPlan result

/-! ## What is kept -/

/-- The rows that come first with their key. -/
def firstRows : List (List (Value T)) → List (List (Value T))
  | [] => []
  | row :: rows => row :: (firstRows rows).filter fun r => rowKey r ≠ rowKey row

theorem firstRows_subset (rows : List (List (Value T))) : firstRows rows ⊆ rows := by
  induction rows with
  | nil => exact List.Subset.refl _
  | cons row rows ih => grind [firstRows]

theorem firstRows_pairwise (rows : List (List (Value T))) :
    (firstRows rows).Pairwise fun r r' => rowKey r ≠ rowKey r' := by
  induction rows with
  | nil => exact .nil
  | cons row rows ih =>
    refine .cons (fun r hr => ?_) (ih.filter _)
    simpa using Ne.symm (of_decide_eq_true (mem_filter.1 hr).2)

section Table

variable [DecidableEq B] (hash : List UInt8 → B)

/-- The table holds its old entries and the rows that come first with a new key. -/
theorem entries_fillTable (rows : List (List (Value T))) (table : HashTable B (List UInt8) (List (Value T))) :
    (fillTable hash rows table).entries.Perm (table.entries ++
      ((firstRows rows).filter fun r => !(table.get hash (rowKey r)).isSome).map fun r => (rowKey r, [r])) := by
  induction rows generalizing table with
  | nil => simp [fillTable, firstRows]
  | cons row rows ih =>
    rw [fillTable, firstRows, filter_cons, filter_filter]
    cases hseen : (table.get hash (rowKey row)).isSome with
    | true => grind
    | false =>
      refine (ih _).trans ?_
      have hget : table.get hash (rowKey row) = none := by simpa using hseen
      refine ((table.entries_put_perm hash row hget).append_right _).trans (List.Perm.of_eq ?_)
      grind [HashTable.get_put_isSome]

/-- The rows of `UNION DISTINCT` are the rows that come first with their key, in some order, and their
number is reported. -/
theorem rows_unionResults {left right result : Result F T} (h : unionResults hash .distinct left right = .ok result) :
    result.rows.Perm (firstRows (left.rows ++ right.rows)) ∧ result.rowsAffected = result.rows.length := by
  rw [← Result.rows_appendResult]
  unfold unionResults at h
  split_ifs at h with hfields
  simp only at h
  split_ifs at h with hrows
  · cases h
    rw [hrows]
    exact ⟨.refl _, rfl⟩
  · cases h
    have hentries := entries_fillTable hash (left.appendResult right).rows .empty
    have hrows := hentries.flatMap_right fun entry => entry.2.head?.toList
    simp only [HashTable.entries_empty, HashTable.get_empty, Option.isSome_none, Bool.not_false,
      filter_true, nil_append, flatMap_map, List.head?_cons, Option.toList_some,
      flatMap_singleton'] at hrows hentries
    refine ⟨hrows, ?_⟩
    have hsize := size_fillTable hash (left.appendResult right).rows .empty rfl
    rw [hrows.length_eq]
    exact hsize.trans (hentries.length_eq.trans (length_map _))

end Table

/-! ## Distinct rows -/

/-- Equality of SQL values, as the type and the collation of their column have it: NULL equals only NULL. -/
structure SqlEquality (T : Type) where
  same : Value T → Value T → Bool
  refl : ∀ v, same v v = true
  symm : ∀ v w, same v w = true → same w v = true
  trans : ∀ u v w, same u v = true → same v w = true → same u w = true
  null : ∀ v, same .null v = true → v = .null

/-- Rows that are equal in every column. -/
def SqlEquality.sameRow (eqv : SqlEquality T) : List (Value T) → List (Value T) → Bool
  | [], [] => true
  | v :: row, w :: row' => eqv.same v w && eqv.sameRow row row'
  | _, _ => false

namespace SqlEquality

variable (eqv : SqlEquality T)

theorem sameRow_symm : ∀ {row row'}, eqv.sameRow row row' = true → eqv.sameRow row' row = true
  | [], [], _ => rfl
  | v :: row, w :: row', h => by
    simp only [sameRow, Bool.and_eq_true] at h ⊢
    exact ⟨eqv.symm _ _ h.1, sameRow_symm h.2⟩

theorem sameRow_trans : ∀ {a b c}, eqv.sameRow a b = true → eqv.sameRow b c = true → eqv.sameRow a c = true
  | [], [], [], _, _ => rfl
  | u :: a, v :: b, w :: c, h, h' => by
    simp only [sameRow, Bool.and_eq_true] at h h' ⊢
    exact ⟨eqv.trans _ _ _ h.1 h'.1, sameRow_trans h.2 h'.2⟩

end SqlEquality

/-- One row is kept for every distinct row of the two results. -/
def DistinctKept (eqv : SqlEquality T) (rows kept : List (List (Value T))) : Prop :=
  kept ⊆ rows ∧ ∀ row ∈ rows, kept.countP (eqv.sameRow row) = 1

/-- Of rows with different keys, exactly one is equal to a row if one is and equal ones have one key. -/
theorem countP_eq_one {l : List (List (Value T))} (hl : l.Pairwise fun r r' => rowKey r ≠ rowKey r')
    {p : List (Value T) → Bool} (hfound : ∃ r ∈ l, p r = true)
    (hkey : ∀ r ∈ l, ∀ r' ∈ l, p r = true → p r' = true → rowKey r = rowKey r') : l.countP p = 1 := by
  rw [countP_eq_length_filter]
  obtain ⟨r, hr, hp⟩ := hfound
  have hmem : r ∈ l.filter p := mem_filter.2 ⟨hr, hp⟩
  have hpair := hl.filter p
  have hall : ∀ r' ∈ l.filter p, ∀ r'' ∈ l.filter p, rowKey r' = rowKey r'' := fun r' h' r'' h'' =>
    hkey r' (mem_of_mem_filter h') r'' (mem_of_mem_filter h'') (mem_filter.1 h').2
      (mem_filter.1 h'').2
  generalize l.filter p = kept at hmem hpair hall
  match kept, hmem, hpair with
  | [_], _, _ => rfl
  | a :: b :: kept, _, hpair =>
    exact absurd (hall a mem_cons_self b (mem_cons_of_mem _ mem_cons_self))
      (rel_of_pairwise_cons hpair mem_cons_self)

/-- Every row has the key of a row that comes first with it. -/
theorem exists_mem_firstRows {rows : List (List (Value T))} {row : List (Value T)} (h : row ∈ rows) :
    ∃ first ∈ firstRows rows, rowKey first = rowKey row := by
  induction rows with
  | nil => cases h
  | cons head rows ih =>
    by_cases hkey : rowKey row = rowKey head
    · exact ⟨head, mem_cons_self, hkey.symm⟩
    · obtain rfl | h := mem_cons.1 h
      · exact absurd rfl hkey
      · obtain ⟨first, hfirst, heq⟩ := ih h
        refine ⟨first, mem_cons_of_mem _ (mem_filter.2 ⟨hfirst, decide_eq_true ?_⟩), heq⟩
        rw [heq]
        exact hkey

/-- Two rows that come first with one key are the same row. -/
theorem eq_of_mem_firstRows {rows : List (List (Value T))} {first first' : List (Value T)}
    (h : first ∈ firstRows rows) (h' : first' ∈ firstRows rows) (hkey : rowKey first = rowKey first') :
    first = first' := by
  have hnodup : ((firstRows rows).map rowKey).Nodup := pairwise_map.2 (firstRows_pairwise rows)
  exact inj_on_of_nodup_map hnodup h h' hkey

/-- `UNION DISTINCT` keeps one row for every distinct row exactly if no two different rows have one key, where
equal rows have the same bytes. -/
theorem unionDistinct_iff [DecidableEq B] (hash : List UInt8 → B) (eqv : SqlEquality T)
    (left right result : Result F T) (h : unionResults hash .distinct left right = .ok result)
    (hbytes : ∀ row ∈ left.rows ++ right.rows, ∀ row' ∈ left.rows ++ right.rows,
      eqv.sameRow row row' = true → rowKey row = rowKey row') :
    DistinctKept eqv (left.rows ++ right.rows) result.rows ↔
      ∀ row ∈ left.rows ++ right.rows, ∀ row' ∈ left.rows ++ right.rows,
        rowKey row = rowKey row' → eqv.sameRow row row' = true := by
  have hperm := (rows_unionResults hash h).1
  generalize left.rows ++ right.rows = rows at hperm hbytes ⊢
  have hsub : firstRows rows ⊆ rows := firstRows_subset rows
  constructor
  · rintro ⟨-, hcount⟩ row hrow row' hrow' hkey
    -- the kept rows that equal the two have their keys, so they are one row
    have hfirst {r : List (Value T)} (hr : r ∈ rows) : ∃ first ∈ firstRows rows, eqv.sameRow r first = true := by
      have hpos : 0 < result.rows.countP (eqv.sameRow r) := (hcount r hr).symm ▸ Nat.one_pos
      obtain ⟨first, hmem, hsame⟩ := countP_pos_iff.1 hpos
      exact ⟨first, hperm.mem_iff.1 hmem, hsame⟩
    obtain ⟨first, hmem, hsame⟩ := hfirst hrow
    obtain ⟨first', hmem', hsame'⟩ := hfirst hrow'
    have hkeys : rowKey first = rowKey first' :=
      (hbytes row hrow first (hsub hmem) hsame).symm.trans
        (hkey.trans (hbytes row' hrow' first' (hsub hmem') hsame'))
    obtain rfl := eq_of_mem_firstRows hmem hmem' hkeys
    exact eqv.sameRow_trans hsame (eqv.sameRow_symm hsame')
  · intro hsep
    refine ⟨fun row hrow => hsub (hperm.mem_iff.1 hrow), fun row hrow => ?_⟩
    rw [hperm.countP_eq]
    refine countP_eq_one (firstRows_pairwise rows) ?_ fun r hr r' hr' hsame hsame' => ?_
    · obtain ⟨first, hmem, hkey⟩ := exists_mem_firstRows hrow
      exact ⟨first, hmem, hsep row hrow first (hsub hmem) hkey.symm⟩
    · exact (hbytes row hrow r (hsub hr) hsame).symm.trans (hbytes row hrow r' (hsub hr') hsame')

/-! ## Equality of the bytes -/

/-- Values with the same bytes are equal. -/
def SqlEquality.bytes : SqlEquality T where
  same
    | .null, .null => true
    | .val _ b, .val _ b' => b = b'
    | _, _ => false
  refl v := by cases v <;> simp
  symm v w h := by cases v <;> cases w <;> simp_all
  trans u v w h h' := by cases u <;> cases v <;> cases w <;> simp_all
  null v h := by cases v <;> simp_all

/-! ## Rows with one key -/

/-- A column of text. -/
def text (bytes : List UInt8) : Value Unit := .val () bytes

/-- The row `('a', 'bc')`. -/
def leftResult : Result Unit Unit := ⟨[(), ()], [[text [97], text [98, 99]]], 1, nofun⟩

/-- The rows `('ab', 'c')` and `('x', 'y')`. -/
def rightResult : Result Unit Unit := ⟨[(), ()], [[text [97, 98], text [99]], [text [120], text [121]]], 2, nofun⟩

/-- Rows with the same bytes in every column have one key. -/
theorem rowKey_of_sameRow_bytes : ∀ {row row' : List (Value T)}, SqlEquality.bytes.sameRow row row' = true →
    rowKey row = rowKey row'
  | [], [], _ => rfl
  | v :: row, w :: row', h => by
    simp only [SqlEquality.sameRow, Bool.and_eq_true] at h
    have hraw : v.raw = w.raw := by
      cases v <;> cases w <;> simp_all [SqlEquality.bytes, Value.raw]
    rw [rowKey, rowKey, flatMap_cons, flatMap_cons, hraw]
    exact congrArg _ (rowKey_of_sameRow_bytes h.2)

/-- The theorem on the two results: `('a', 'bc')` and `('ab', 'c')` have one key. -/
theorem unionDistinct_iff_text :
    DistinctKept .bytes (leftResult.rows ++ rightResult.rows)
        [[text [97], text [98, 99]], [text [120], text [121]]] ↔
      ∀ row ∈ leftResult.rows ++ rightResult.rows, ∀ row' ∈ leftResult.rows ++ rightResult.rows,
        rowKey row = rowKey row' → SqlEquality.bytes.sameRow row row' = true :=
  unionDistinct_iff id .bytes leftResult rightResult
    ⟨[(), ()], [[text [97], text [98, 99]], [text [120], text [121]]], 2, nofun⟩ rfl
    fun _ _ _ _ => rowKey_of_sameRow_bytes

/-- The row `('ab', 'c')` is lost, and so is one of the rows `(NULL)` and `('')`. -/
theorem unionDistinct_lost :
    unionResults id .distinct leftResult rightResult =
        .ok ⟨[(), ()], [[text [97], text [98, 99]], [text [120], text [121]]], 2, nofun⟩ ∧
      ¬ DistinctKept .bytes (leftResult.rows ++ rightResult.rows)
        [[text [97], text [98, 99]], [text [120], text [121]]] ∧
      unionResults id .distinct ⟨[()], [[.null]], 1, nofun⟩ ⟨[()], [[text []]], 1, nofun⟩ =
        .ok ⟨[()], [[.null]], 1, nofun⟩ := by
  refine ⟨rfl, fun h => ?_, rfl⟩
  have hcount := h.2 [text [97, 98], text [99]] (by decide)
  exact absurd hcount (by decide)

end Radon.Executor
