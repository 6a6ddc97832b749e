import Mathlib.Data.List.AList
import Mathlib.Data.List.Induction
import Mathlib.Data.List.Infix
import Radon.FileSystem.Path

/-!
# Trees of files

A tree holds what is below a directory. Every node but the directory itself lies in a directory of the
tree. Directories are made, files are written and nodes are removed as the operating system does it.

`build` writes a list of files into an empty tree and makes the directories on the way. From the files of
a tree it builds the tree without the directories that no file lies below.
-/

namespace Radon.FileSystem

variable {C : Type}

/-- A directory, or a file with what it holds. -/
inductive Node (C : Type)
  | dir
  | file (content : C)
deriving DecidableEq

instance (x : Option (Node C)) : Decidable (x = some .dir) :=
  match x with
  | none => isFalse (by simp)
  | some .dir => isTrue rfl
  | some (.file _) => isFalse (by simp)

/-- The nodes below a directory, by the names that lead to them. -/
structure FileTree (C : Type) where
  nodes : AList fun _ : List Name => Node C
  root : nodes.lookup [] = some .dir
  parent : ∀ p n, nodes.lookup (p ++ [n]) ≠ none → nodes.lookup p = some .dir

end Radon.FileSystem

namespace AList

variable {α : Type} {β : α → Type} [DecidableEq α]

/-- The entries whose keys pass a test. -/
def filterKeys (s : AList β) (test : α → Bool) : AList β :=
  ⟨s.entries.filter fun e => test e.1, s.nodupKeys.sublist List.filter_sublist⟩

theorem lookup_filterKeys (s : AList β) (test : α → Bool) (a : α) :
    (s.filterKeys test).lookup a = if test a then s.lookup a else none := by
  ext b
  rw [← Option.mem_def, AList.mem_lookup_iff, filterKeys, List.mem_filter, ← AList.mem_lookup_iff]
  split_ifs with h <;> simp [h]

end AList

namespace Radon.FileSystem

variable {C : Type}

namespace FileTree

open AList List

/-- The node that some names lead to. -/
def get (t : FileTree C) (p : List Name) : Option (Node C) := t.nodes.lookup p

/-- A directory with nothing in it. -/
def empty : FileTree C where
  nodes := AList.singleton [] .dir
  root := by simp [AList.lookup]
  parent p n h := by simp [AList.lookup] at h

theorem get_empty_nil : (empty : FileTree C).get [] = some .dir := empty.root

/-- Put a node into a directory. -/
def put (t : FileTree C) (p : List Name) (n : Name) (x : Node C) (hp : t.get p = some .dir)
    (hx : x = .dir ∨ t.get (p ++ [n]) ≠ some .dir) : FileTree C where
  nodes := t.nodes.insert (p ++ [n]) x
  root := by
    rw [AList.lookup_insert_ne (by simp)]
    exact t.root
  parent q m h := by
    by_cases hq : q = p ++ [n]
    · subst hq
      rcases hx with rfl | hx
      · exact AList.lookup_insert _
      · rw [AList.lookup_insert_ne (by simp)] at h
        exact absurd (t.parent _ _ h) hx
    · rw [AList.lookup_insert_ne hq]
      by_cases hqm : q ++ [m] = p ++ [n]
      · rw [(append_inj' hqm rfl).1]
        exact hp
      · rw [AList.lookup_insert_ne hqm] at h
        exact t.parent _ _ h

/-- `os.Mkdir`, which is content with a directory that is there. -/
def mkdir (t : FileTree C) (p : List Name) (n : Name) : Except String (FileTree C) :=
  if hp : t.get p = some .dir then
    match t.get (p ++ [n]) with
    | some .dir => .ok t
    | some (.file _) => .error "not a directory"
    | none => .ok (t.put p n .dir hp (.inl rfl))
  else .error "no such file or directory"

/-- `os.MkdirAll`, from a directory that is there on. -/
def mkdirFrom (t : FileTree C) (p : List Name) : List Name → Except String (FileTree C)
  | [] => .ok t
  | n :: ns => do
    let t ← t.mkdir p n
    mkdirFrom t (p ++ [n]) ns

/-- `os.MkdirAll`. -/
def mkdirAll (t : FileTree C) (p : List Name) : Except String (FileTree C) := t.mkdirFrom [] p

/-- Write a file into a directory; it replaces a file that is there. -/
def writeFile (t : FileTree C) (p : List Name) (n : Name) (c : C) : Except String (FileTree C) :=
  if hp : t.get p = some .dir then
    if hx : t.get (p ++ [n]) ≠ some .dir then .ok (t.put p n (.file c) hp (.inr hx))
    else .error "is a directory"
  else .error "no such file or directory"

/-- The nodes for which a test on their names holds; no node may lose its directory. -/
def keep (t : FileTree C) (test : List Name → Bool) (hroot : test [] = true)
    (htest : ∀ p n, t.get (p ++ [n]) ≠ none → test (p ++ [n]) = true → test p = true) : FileTree C where
  nodes := t.nodes.filterKeys test
  root := by
    rw [lookup_filterKeys, if_pos hroot]
    exact t.root
  parent p n h := by
    rw [lookup_filterKeys] at h
    split_ifs at h with hpn
    · rw [lookup_filterKeys, if_pos (htest p n h hpn)]
      exact t.parent p n h
    · exact absurd rfl h

/-- `os.RemoveAll`: the node and all below it, if it is there. -/
def removeAll (t : FileTree C) (p : List Name) (n : Name) : FileTree C :=
  t.keep (fun q => ¬ p ++ [n] <+: q) (by simp) fun q m _ h => by
    rw [decide_eq_true_eq] at h ⊢
    exact fun hq => h (hq.trans (prefix_append q [m]))

/-- `os.Remove`: a file, or a directory with nothing in it. -/
def remove (t : FileTree C) (p : List Name) (n : Name) : Except String (FileTree C) :=
  if t.get (p ++ [n]) = none then .error "no such file or directory"
  else if t.nodes.keys.all fun q => ¬ p ++ [n] <+: q.dropLast then .ok (t.removeAll p n)
  else .error "directory not empty"

/-- The files with what they hold, by the names that lead to them. -/
def files (t : FileTree C) : List (List Name × C) :=
  t.nodes.entries.filterMap fun e =>
    match e.2 with
    | .dir => none
    | .file c => some (e.1, c)

/-- `ioutil.ReadDir`: the nodes in a directory. -/
def readDir (t : FileTree C) (p : List Name) : List (Name × Node C) :=
  t.nodes.entries.filterMap fun e =>
    match e.1.getLast? with
    | none => none
    | some n => if e.1.dropLast = p then some (n, e.2) else none

/-- Write a file into a tree and make the directories that it lies in. -/
def addFile (t : FileTree C) (p : List Name) (c : C) : Except String (FileTree C) :=
  match p.getLast? with
  | none => .error "is a directory"
  | some n => do
    let t ← t.mkdirAll p.dropLast
    t.writeFile p.dropLast n c

/-- Write files one after the other. -/
def addFiles (t : FileTree C) : List (List Name × C) → Except String (FileTree C)
  | [] => .ok t
  | (p, c) :: fs => do
    let t ← t.addFile p c
    addFiles t fs

/-! ## What is in a tree -/

@[simp] theorem get_nil (t : FileTree C) : t.get [] = some .dir := t.root

theorem get_empty (p : List Name) : (empty : FileTree C).get p = if p = [] then some .dir else none := by
  by_cases h : p = []
  · simp [h]
  · rw [if_neg h, get, AList.lookup_eq_none, AList.mem_keys]
    simpa [empty] using h

variable {t u : FileTree C} {p : List Name} {n : Name} {c : C} {fs : List (List Name × C)}

@[simp] theorem get_put {x : Node C} {hp : t.get p = some .dir} {hx : x = .dir ∨ t.get (p ++ [n]) ≠ some .dir}
    (q : List Name) : (t.put p n x hp hx).get q = if q = p ++ [n] then some x else t.get q := by
  split_ifs with h
  · rw [h]
    exact AList.lookup_insert _
  · exact AList.lookup_insert_ne h

/-- Everything above a node is a directory. -/
theorem get_of_get_append {q : List Name} (h : t.get (p ++ q) ≠ none) (hq : q ≠ []) : t.get p = some .dir := by
  induction q using List.reverseRecOn with
  | nil => exact absurd rfl hq
  | append_singleton q n ih => grind [parent, get]

theorem get_of_isPrefix {q : List Name} (h : t.get q ≠ none) (hpq : p <+: q) (hne : p ≠ q) : t.get p = some .dir := by
  obtain ⟨rest, rfl⟩ := hpq
  exact get_of_get_append h fun hnil => hne (by simp [hnil])

theorem get_removeAll (t : FileTree C) (p : List Name) (n : Name) (q : List Name) :
    (t.removeAll p n).get q = if p ++ [n] <+: q then none else t.get q := by
  rw [get, removeAll, keep, lookup_filterKeys]
  by_cases h : p ++ [n] <+: q <;> simp [h, get]

/-- A file is removed alone. -/
theorem remove_file (h : t.get (p ++ [n]) = some (.file c)) :
    ∃ t', t.remove p n = .ok t' ∧ ∀ q, t'.get q = if q = p ++ [n] then none else t.get q := by
  have hbelow {q : List Name} (hq : t.get q ≠ none) (hpre : p ++ [n] <+: q) : q = p ++ [n] := by
    grind [get_of_isPrefix]
  refine ⟨t.removeAll p n, ?_, fun q => ?_⟩
  · rw [remove, if_neg (by simp [h]), if_pos]
    rw [all_eq_true]
    intro q hq
    rw [decide_eq_true_eq]
    intro hpre
    have hget : t.get q ≠ none := fun hnone => AList.lookup_eq_none.1 hnone (AList.mem_keys.2 hq)
    have heq := hbelow hget (hpre.trans <| dropLast_prefix q)
    have hlen := hpre.length_le
    grind
  · grind [get_removeAll]

theorem mem_files : (p, c) ∈ t.files ↔ t.get p = some (.file c) := by
  rw [files, mem_filterMap, get, ← Option.mem_def, AList.mem_lookup_iff]
  constructor
  · grind
  · intro h
    exact ⟨_, h, rfl⟩

theorem mem_readDir {x : Node C} : (n, x) ∈ t.readDir p ↔ t.get (p ++ [n]) = some x := by
  rw [readDir, mem_filterMap, get, ← Option.mem_def, AList.mem_lookup_iff]
  constructor
  · rintro ⟨⟨q, y⟩, he, hx⟩
    dsimp only at hx
    split at hx
    · cases hx
    · rename_i m hm
      split_ifs at hx with hq
      cases hx
      have hqm : q = p ++ [n] := by
        rw [← hq]
        exact (dropLast_append_getLast? n hm).symm
      exact hqm ▸ he
  · intro h
    refine ⟨_, h, ?_⟩
    simp

/-- The files of a tree have different paths. -/
theorem nodup_files (t : FileTree C) : (t.files.map Prod.fst).Nodup := by
  refine t.nodes.keys_nodup.sublist ?_
  rw [files, AList.keys, List.keys]
  induction t.nodes.entries with
  | nil => simp
  | cons e l ih => grind

/-- The nodes in a directory have different names. -/
theorem nodup_readDir (t : FileTree C) (p : List Name) : ((t.readDir p).map Prod.fst).Nodup := by
  have hpath : (((t.readDir p).map Prod.fst).map fun n => p ++ [n]).Nodup := by
    refine t.nodes.keys_nodup.sublist ?_
    rw [readDir, AList.keys, List.keys]
    induction t.nodes.entries with
    | nil => simp
    | cons e l ih =>
      obtain ⟨q, x⟩ := e
      rw [map_cons, filterMap_cons]
      split
      · exact ih.cons q
      · rename_i y hy
        dsimp only at hy
        split at hy
        · cases hy
        · rename_i n hn
          split_ifs at hy with hq
          cases hy
          rw [← hq, map_cons, map_cons, dropLast_append_getLast? n hn]
          rw [← hq] at ih
          exact ih.cons_cons q
  exact hpath.of_map _

/-! ## Building a tree -/

/-- Directories are made unless a file is in the way. -/
theorem mkdirFrom_ok {ns : List Name} (hp : t.get p = some .dir)
    (hns : ∀ q, q <+: p ++ ns → ∀ c, t.get q ≠ some (.file c)) : ∃ t', t.mkdirFrom p ns = .ok t' ∧
      ∀ q, t'.get q = if q <+: p ++ ns then some .dir else t.get q := by
  induction ns generalizing t p with
  | nil =>
    refine ⟨t, rfl, fun q => ?_⟩
    rw [append_nil]
    split_ifs with hq
    · grind [get_of_isPrefix]
    · rfl
  | cons n ns ih =>
    have hmk : ∃ t₁, t.mkdir p n = .ok t₁ ∧
        ∀ q, t₁.get q = if q = p ++ [n] then some .dir else t.get q := by
      rw [mkdir, dif_pos hp]
      split
      · grind
      · rename_i c hfile
        exact absurd hfile (hns _ (by simp) c)
      · exact ⟨_, rfl, get_put⟩
    obtain ⟨t₁, hmk, hget₁⟩ := hmk
    have hprefix : p ++ [n] <+: p ++ n :: ns := by simp
    obtain ⟨t', hrest, hget⟩ := ih (t := t₁) (p := p ++ [n]) (by simp [hget₁]) fun q hq c => by grind
    refine ⟨t', ?_, fun q => ?_⟩
    · rw [mkdirFrom, hmk]
      exact hrest
    · rw [hget, hget₁, append_assoc]
      by_cases heq : q = p ++ [n]
      · simp [heq]
      · simp [heq]

/-- A file can be written where no directory is, unless a file is in the way. -/
theorem addFile_ok (c : C) (hp : t.get p ≠ some .dir)
    (hfile : ∀ q, q <+: p → q ≠ p → ∀ c, t.get q ≠ some (.file c)) : ∃ t', t.addFile p c = .ok t' ∧
      ∀ q, t'.get q = if q = p then some (.file c) else if q <+: p then some .dir else t.get q := by
  induction p using List.reverseRecOn with
  | nil => exact absurd t.get_nil hp
  | append_singleton p n _ =>
    have hstrict {q : List Name} (hq : q <+: p) : q ≠ p ++ [n] := by
      rintro rfl
      have hlen := hq.length_le
      rw [length_append, length_singleton] at hlen
      omega
    obtain ⟨t₁, hmk, hget₁⟩ : ∃ t₁, t.mkdirFrom [] p = .ok t₁ ∧ _ := mkdirFrom_ok t.get_nil fun q hq =>
      hfile q (hq.trans (prefix_append p [n])) (hstrict hq)
    have hdir : t₁.get p = some .dir := by simp [hget₁]
    have hnot : t₁.get (p ++ [n]) ≠ some .dir := by grind
    refine ⟨t₁.put p n (.file c) hdir (.inr hnot), ?_, fun q => ?_⟩
    · rw [addFile, List.getLast?_concat, dropLast_concat]
      simp only [mkdirAll, hmk, bind, Except.bind, writeFile, dif_pos hdir, dif_pos hnot]
    · rw [get_put, hget₁, nil_append]
      by_cases heq : q = p ++ [n]
      · simp [heq]
      · have hiff : q <+: p ++ [n] ↔ q <+: p := by
          rw [prefix_concat_iff]
          simp [heq]
        simp [heq, hiff]

/-- A tree with given files and the directories that they lie in. -/
structure Holds (t : FileTree C) (fs : List (List Name × C)) : Prop where
  file : ∀ p c, t.get p = some (.file c) ↔ (p, c) ∈ fs
  dir : ∀ p, t.get p = some .dir ↔ p = [] ∨ ∃ e ∈ fs, p <+: e.1 ∧ p ≠ e.1

theorem holds_empty : (empty : FileTree C).Holds [] := by
  constructor
  · intro p c
    rw [get_empty]
    split_ifs <;> simp
  · intro p
    rw [get_empty]
    split_ifs with h <;> simp [h]

/-- A file of another tree is added to some of its files. -/
theorem Holds.addFile (h : t.Holds fs) (hfs : ∀ e ∈ fs, u.get e.1 = some (.file e.2))
    (hp : u.get p = some (.file c)) : ∃ t', t.addFile p c = .ok t' ∧ t'.Holds (fs ++ [(p, c)]) := by
  have hnil : p ≠ [] := by
    rintro rfl
    simp at hp
  -- what is above a file is a directory in the other tree, and what is a directory there is no file
  have habove {q r : List Name} {d d' : C} (hq : u.get q = some (.file d)) (hr : u.get r = some (.file d'))
      (hqr : q <+: r) : q = r := by
    by_contra hne
    rw [get_of_isPrefix (by simp [hr]) hqr hne] at hq
    cases hq
  have hdir : t.get p ≠ some .dir := by grind [dir]
  obtain ⟨t', hadd, hget⟩ := addFile_ok c hdir fun q hq hne d hd =>
    hne (habove (hfs _ ((h.file q d).1 hd)) hp hq)
  refine ⟨t', hadd, fun q d => ?_, fun q => ?_⟩
  · rw [hget, mem_append, mem_singleton, ← h.file]
    by_cases heq : q = p
    · subst heq
      have hsame : t.get q = some (.file d) → c = d := fun hd => by
        have := hp.symm.trans (hfs _ ((h.file q d).1 hd))
        cases this
        rfl
      grind
    · rw [if_neg heq]
      split_ifs with hq
      · have hfile : t.get q ≠ some (.file d) := fun hd => heq (habove (hfs _ ((h.file q d).1 hd)) hp hq)
        simp [hfile, heq]
      · simp [heq]
  · have hexists : (∃ e ∈ fs ++ [(p, c)], q <+: e.1 ∧ q ≠ e.1) ↔
        (∃ e ∈ fs, q <+: e.1 ∧ q ≠ e.1) ∨ (q <+: p ∧ q ≠ p) := by
      simp [or_and_right, exists_or]
    rw [hget, hexists, ← or_assoc, ← h.dir]
    grind

/-- The files of a tree build a tree that holds them. -/
theorem Holds.addFiles {done : List (List Name × C)} (h : t.Holds done)
    (hdone : ∀ e ∈ done, u.get e.1 = some (.file e.2)) (hfs : ∀ e ∈ fs, u.get e.1 = some (.file e.2)) :
    ∃ t', t.addFiles fs = .ok t' ∧ t'.Holds (done ++ fs) := by
  induction fs generalizing t done with
  | nil => exact ⟨t, rfl, by simpa using h⟩
  | cons e fs ih =>
    obtain ⟨p, c⟩ := e
    have hp := hfs _ mem_cons_self
    obtain ⟨t₁, hadd, h₁⟩ := h.addFile hdone hp
    obtain ⟨t', hrest, h'⟩ := ih h₁ (forall_mem_append.2 ⟨hdone, by simpa using hp⟩)
      fun e he => hfs e (mem_cons_of_mem _ he)
    refine ⟨t', ?_, by simpa using h'⟩
    rw [FileTree.addFiles, hadd]
    exact hrest

/-- Rebuilding a tree from its files, in any order, loses the directories with no file below. -/
theorem addFiles_files (hfs : fs.Perm u.files) : ∃ t', empty.addFiles fs = .ok t' ∧
      (∀ p c, t'.get p = some (.file c) ↔ u.get p = some (.file c)) ∧ ∀ p, t'.get p = some .dir ↔
        p = [] ∨ ∃ q c, u.get q = some (.file c) ∧ p <+: q ∧ p ≠ q := by
  have hmem (e : List Name × C) : e ∈ fs ↔ u.get e.1 = some (.file e.2) := by
    rw [hfs.mem_iff]
    exact mem_files
  obtain ⟨t', hadd, h⟩ := holds_empty.addFiles (by simp) fun e he => (hmem e).1 he
  rw [nil_append] at h
  refine ⟨t', hadd, fun p c => (h.file p c).trans (hmem (p, c)), fun p => ?_⟩
  rw [h.dir, Prod.exists]
  simp only [hmem]

end FileTree

end Radon.FileSystem
