import Mathlib.Data.List.Perm.Basic
import Mathlib.Data.List.TakeWhile
import Mathlib.Order.Lattice

/-!
# Joining sorted rows by merging

Two sorted lists of rows are cut into chunks of equal keys, and the chunks are walked in parallel. The
result is the join that a loop over the left rows finds. Keys may be invalid: they match nothing, and the
comparison may report so at once.
-/

namespace Radon.Relational

open List

variable {α β γ κ : Type}

/-- What one left row gives when its matching right rows are known: a row for each of them that is kept, or
the rows that stand for no match. -/
def emit (unmatched : List γ) (keep : β → Bool) (combine : β → γ) : List β → List γ
  | [] => unmatched
  | b :: bs => ((b :: bs).filter keep).map combine

/-! ## Chunks -/

/-- Cut a list where the rows stop being alike. -/
def chunks (same : α → α → Bool) : List α → List (List α)
  | [] => []
  | a :: as => (a :: as.takeWhile (same a)) :: chunks same (as.dropWhile (same a))
termination_by as => as.length
decreasing_by exact Nat.lt_succ_of_le (List.length_dropWhile_le _ _)

/-- Chunks of one key each, with increasing keys. -/
structure Grouped [LinearOrder κ] (key : α → κ) (cs : List (List α)) : Prop where
  increasing : cs.Pairwise fun c d => ∀ a ∈ c, ∀ b ∈ d, key a < key b
  alike : ∀ c ∈ cs, c ≠ [] ∧ ∀ a ∈ c, ∀ b ∈ c, key a = key b

theorem flatten_chunks (same : α → α → Bool) (as : List α) : (chunks same as).flatten = as := by
  induction as using chunks.induct same with
  | case1 => simp [chunks]
  | case2 a as ih =>
    rw [chunks, flatten_cons, ih, cons_append, takeWhile_append_dropWhile]

theorem chunks_map (same : β → β → Bool) (f : α → β) (as : List α) :
    chunks same (as.map f) = (chunks (fun a b => same (f a) (f b)) as).map (List.map f) := by
  induction as using chunks.induct (fun a b => same (f a) (f b)) with
  | case1 => simp [chunks]
  | case2 a as ih =>
    rw [map_cons, chunks, chunks, map_cons, ← ih, map_cons]
    congr 2
    · rw [takeWhile_map]
      rfl
    · rw [dropWhile_map]
      rfl

variable {as : List α} {key : α → κ}

theorem chunks_eq_nil_iff (same : α → α → Bool) : chunks same as = [] ↔ as = [] := by
  cases as <;> simp [chunks]

/-- Without a difference there is one chunk. -/
theorem chunks_of_forall {same : α → α → Bool} (hne : as ≠ [])
    (h : ∀ a ∈ as, ∀ b ∈ as, same a b = true) : chunks same as = [as] := by
  obtain ⟨a, as, rfl⟩ := exists_cons_of_ne_nil hne
  have hall : ∀ b ∈ as, same a b = true := fun b hb => h a mem_cons_self b (mem_cons_of_mem a hb)
  have htake : as.takeWhile (same a) = as := takeWhile_eq_self_iff.2 hall
  have hdrop : as.dropWhile (same a) = [] := dropWhile_eq_nil_iff.2 hall
  rw [chunks, htake, hdrop, chunks]

theorem chunks_grouped [LinearOrder κ] {same : α → α → Bool} (hsame : ∀ a b, same a b = true ↔ key a = key b)
    (hsorted : as.Pairwise fun a b => key a ≤ key b) : Grouped key (chunks same as) := by
  induction as using chunks.induct same with
  | case1 =>
    rw [chunks]
    exact ⟨.nil, fun _ h => nomatch h⟩
  | case2 a as ih =>
    have hdrop : (as.dropWhile (same a)).Pairwise fun a b => key a ≤ key b :=
      hsorted.of_cons.sublist (dropWhile_sublist _)
    have hrest := ih hdrop
    have hchunk : ∀ b ∈ a :: as.takeWhile (same a), key b = key a := by
      intro b hb
      obtain rfl | hb := mem_cons.1 hb
      · rfl
      · exact ((hsame a b).1 (mem_takeWhile_imp hb)).symm
    have hlater : ∀ b ∈ as.dropWhile (same a), key a < key b := by
      intro b hb
      cases hd : as.dropWhile (same a) with
      | nil =>
        rw [hd] at hb
        cases hb
      | cons d ds =>
        have hda : same a d = false := by
          have := List.head?_dropWhile_not (same a) as
          rw [hd] at this
          simpa using this
        have hd_mem : d ∈ as := (dropWhile_sublist _).subset (hd ▸ mem_cons_self)
        have hlt : key a < key d := by
          refine lt_of_le_of_ne ((pairwise_cons.1 hsorted).1 d hd_mem) fun heq => ?_
          rw [(hsame a d).2 heq] at hda
          cases hda
        rw [hd] at hb hdrop
        obtain rfl | hb := mem_cons.1 hb
        · exact hlt
        · exact hlt.trans_le ((pairwise_cons.1 hdrop).1 b hb)
    rw [chunks]
    refine ⟨pairwise_cons.2 ⟨fun c hc x hx y hy => ?_, hrest.increasing⟩, fun c hc => ?_⟩
    · rw [hchunk x hx]
      refine hlater y ?_
      rw [← flatten_chunks same (as.dropWhile (same a))]
      exact mem_flatten.2 ⟨c, hc, hy⟩
    · grind [Grouped.alike]

/-! ## Merging -/

/-- How the keys of a left and a right row compare; `null` says that both are invalid. -/
inductive KeyOrder
  | less
  | greater
  | same
  | null
  deriving DecidableEq

/-- The walk over the chunks: `both` joins two chunks of one key, `leftOnly` keeps left rows that match
nothing. -/
def mergeLoop (compareKeys : α → β → KeyOrder) (both : List α → List β → List γ)
    (leftOnly : List α → List γ) : List (List α) → List (List β) → List γ
  | [], _ => []
  | l :: ls, [] => leftOnly (l ++ ls.flatten)
  | l :: ls, r :: rs =>
    match l, r with
    | a :: _, b :: _ =>
      match compareKeys a b with
      | .same => both l r ++ mergeLoop compareKeys both leftOnly ls rs
      | .null => leftOnly l ++ mergeLoop compareKeys both leftOnly ls rs
      | .greater => mergeLoop compareKeys both leftOnly (l :: ls) rs
      | .less => leftOnly l ++ mergeLoop compareKeys both leftOnly ls (r :: rs)
    | _, _ => []
termination_by ls rs => ls.length + rs.length

/-- What the comparison of two rows tells about their keys. -/
structure ComparesKeys [LinearOrder κ] (compareKeys : α → β → KeyOrder) (keyL : α → κ) (keyR : β → κ)
    (valid : κ → Prop) : Prop where
  less : ∀ a b, compareKeys a b = .less → keyL a < keyR b
  greater : ∀ a b, compareKeys a b = .greater → keyR b < keyL a
  same : ∀ a b, compareKeys a b = .same → keyL a = keyR b ∧ valid (keyL a)
  null : ∀ a b, compareKeys a b = .null → ¬ valid (keyL a) ∧ ¬ valid (keyR b)

section Merge

variable [LinearOrder κ] {compareKeys : α → β → KeyOrder} {keyL : α → κ} {keyR : β → κ}
  {valid : κ → Prop} [DecidablePred valid] {both : List α → List β → List γ}
  {leftOnly : List α → List γ} {out : α → List β → List γ}

/-- The right rows that match a left row. -/
def matching (keyL : α → κ) (keyR : β → κ) (valid : κ → Prop) [DecidablePred valid] (rs : List β) (a : α) :
    List β :=
  rs.filter fun b => keyL a = keyR b ∧ valid (keyL a)

variable {rs : List β} {a : α} {c : List α} {cs : List (List α)}

theorem matching_eq_filter {p : β → Bool} (h : ∀ b ∈ rs, p b = true ↔ keyL a = keyR b ∧ valid (keyL a)) :
    matching keyL keyR valid rs a = rs.filter p :=
  filter_congr fun b hb => Bool.eq_iff_iff.2 (decide_eq_true_iff.trans (h b hb).symm)

theorem matching_append (rs rs' : List β) (a : α) : matching keyL keyR valid (rs ++ rs') a =
      matching keyL keyR valid rs a ++ matching keyL keyR valid rs' a :=
  filter_append ..

theorem matching_eq_nil (h : ∀ b ∈ rs, keyL a = keyR b → ¬ valid (keyL a)) : matching keyL keyR valid rs a = [] := by
  rw [matching, filter_eq_nil_iff]
  grind

theorem matching_eq_self (h : ∀ b ∈ rs, keyL a = keyR b ∧ valid (keyL a)) : matching keyL keyR valid rs a = rs :=
  filter_eq_self.2 fun b hb => decide_eq_true (h b hb)

theorem matching_skip {r : List β} (rs : List β) (h : ∀ b ∈ r, keyL a = keyR b → ¬ valid (keyL a)) :
    matching keyL keyR valid (r ++ rs) a = matching keyL keyR valid rs a := by
  rw [matching_append, matching_eq_nil h, nil_append]

theorem Grouped.tail (h : Grouped key (c :: cs)) : Grouped key cs :=
  ⟨h.increasing.of_cons, fun d hd => h.alike d (mem_cons_of_mem _ hd)⟩

theorem Grouped.head_lt (h : Grouped key (c :: cs)) {b : α} (ha : a ∈ c) (hb : b ∈ cs.flatten) : key a < key b := by
  obtain ⟨d, hd, hb⟩ := mem_flatten.1 hb
  exact (pairwise_cons.1 h.increasing).1 d hd a ha b hb

theorem Grouped.head_eq (h : Grouped key (c :: cs)) {b : α} (ha : a ∈ c) (hb : b ∈ c) : key a = key b :=
  (h.alike c mem_cons_self).2 a ha b hb

/-- The merged rows are those of a loop over the left rows. -/
theorem mergeLoop_eq (hcmp : ComparesKeys compareKeys keyL keyR valid)
    (hboth : ∀ l r, both l r = l.flatMap fun a => out a r)
    (hleft : ∀ l, leftOnly l = l.flatMap fun a => out a []) {ls : List (List α)} {rs : List (List β)}
    (hls : Grouped keyL ls) (hrs : Grouped keyR rs) : mergeLoop compareKeys both leftOnly ls rs =
      ls.flatten.flatMap fun a => out a (matching keyL keyR valid rs.flatten a) := by
  induction ls, rs using mergeLoop.induct compareKeys with
  | case1 rs => simp [mergeLoop]
  | case2 l ls => simp [mergeLoop, hleft, matching]
  | case3 ls rs a l b r hab ih =>
    obtain ⟨heq, hvalid⟩ := hcmp.same a b hab
    simp only [mergeLoop, hab, flatten_cons, flatMap_append, hboth, ih hls.tail hrs.tail]
    refine congrArg₂ (· ++ ·) (flatMap_congr fun x hx => ?_) (flatMap_congr fun x hx => ?_)
    · -- the chunk on the right is what matches, later chunks have larger keys
      have hxa := hls.head_eq hx mem_cons_self
      rw [matching_append, matching_eq_self, matching_eq_nil, append_nil]
      · intro y hy hxy
        exact absurd (hxy ▸ hxa.trans heq ▸ hrs.head_lt mem_cons_self hy) (lt_irrefl _)
      · exact fun y hy => ⟨hxa.trans (heq.trans (hrs.head_eq mem_cons_self hy)), hxa ▸ hvalid⟩
    · have hax := hls.head_lt mem_cons_self hx
      rw [matching_skip]
      intro y hy hxy
      rw [hxy, hrs.head_eq hy mem_cons_self, ← heq] at hax
      exact absurd hax (lt_irrefl _)
  | case4 ls rs a l b r hab ih =>
    obtain ⟨hinvalid, hinvalid'⟩ := hcmp.null a b hab
    simp only [mergeLoop, hab, flatten_cons, flatMap_append, hleft, ih hls.tail hrs.tail]
    refine congrArg₂ (· ++ ·) (flatMap_congr fun x hx => ?_) (flatMap_congr fun x hx => ?_)
    · rw [matching_eq_nil]
      exact fun y _ _ => hls.head_eq hx mem_cons_self ▸ hinvalid
    · rw [matching_skip]
      intro y hy hxy
      rwa [hxy, hrs.head_eq hy mem_cons_self]
  | case5 ls rs a l b r hab ih =>
    have hlt := hcmp.greater a b hab
    simp only [mergeLoop, hab, ih hls hrs.tail]
    refine flatMap_congr fun x hx => ?_
    have hle : keyL a ≤ keyL x := by
      rw [flatten_cons, mem_append] at hx
      obtain hx | hx := hx
      · exact (hls.head_eq mem_cons_self hx).le
      · exact (hls.head_lt mem_cons_self hx).le
    rw [flatten_cons, matching_skip]
    intro y hy hxy
    rw [hxy, hrs.head_eq hy mem_cons_self] at hle
    exact absurd (hlt.trans_le hle) (lt_irrefl _)
  | case6 ls rs a l b r hab ih =>
    have hlt := hcmp.less a b hab
    simp only [mergeLoop, hab, ih hls.tail hrs, flatten_cons (l := a :: l), flatMap_append, hleft]
    refine congrArg (· ++ _) (flatMap_congr fun x hx => ?_)
    rw [matching_eq_nil]
    intro y hy hxy
    have hle : keyR b ≤ keyR y := by
      rw [flatten_cons, mem_append] at hy
      obtain hy | hy := hy
      · exact (hrs.head_eq mem_cons_self hy).le
      · exact (hrs.head_lt mem_cons_self hy).le
    rw [← hxy, hls.head_eq hx mem_cons_self] at hle
    exact absurd (hlt.trans_le hle) (lt_irrefl _)
  | case7 l ls r rs hne =>
    -- no chunk is empty
    obtain ⟨a, as, rfl⟩ := exists_cons_of_ne_nil (hls.alike l mem_cons_self).1
    obtain ⟨b, bs, rfl⟩ := exists_cons_of_ne_nil (hrs.alike r mem_cons_self).1
    exact (hne a as b bs rfl rfl).elim

end Merge

/-- What is made of every entry of the merged list can be made where the entry is written. -/
theorem flatMap_mergeLoop {δ : Type} (f : γ → List δ) (compareKeys : α → β → KeyOrder)
    (both : List α → List β → List γ) (leftOnly : List α → List γ) (ls : List (List α)) (rs : List (List β)) :
    (mergeLoop compareKeys both leftOnly ls rs).flatMap f =
      mergeLoop compareKeys (fun l r => (both l r).flatMap f) (fun l => (leftOnly l).flatMap f) ls rs := by
  induction ls, rs using mergeLoop.induct compareKeys with
  | case1 rs => simp [mergeLoop]
  | case2 l ls => simp [mergeLoop]
  | case3 ls rs a l b r hab ih => simp only [mergeLoop, hab, flatMap_append, ih]
  | case4 ls rs a l b r hab ih => simp only [mergeLoop, hab, flatMap_append, ih]
  | case5 ls rs a l b r hab ih => simp only [mergeLoop, hab, ih]
  | case6 ls rs a l b r hab ih => simp only [mergeLoop, hab, flatMap_append, ih]
  | case7 l ls r rs hne => grind [mergeLoop]

end Radon.Relational
