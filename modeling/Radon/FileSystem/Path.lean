import Mathlib.Data.List.Basic
import Mathlib.Order.Basic

/-!
# Slash-separated paths

A path is a text. Its elements are pushed one by one on the place that the path starts from: an empty
element and `.` stay where they are, `..` goes up, and any other element goes down. A place is the
normal form of a path: whether the path starts at the root, how often it goes up from there, and the
names it then goes down by. Links are not followed.

`clean` and `join` are the functions of these names in Go's `path`.
-/

namespace Radon.FileSystem

open List

/-- An element of a path that goes down. -/
def IsName (e : List Char) : Prop := e ≠ [] ∧ e ≠ ['.'] ∧ e ≠ ['.', '.'] ∧ '/' ∉ e

instance : DecidablePred IsName := fun _ => inferInstanceAs (Decidable (_ ∧ _ ∧ _ ∧ _))

/-- A name of a directory or a file. -/
abbrev Name := { e : List Char // IsName e }

/-- A place in the file system; nothing is above the root. -/
structure Location where
  rooted : Bool
  ups : ℕ
  names : List Name
  ups_of_rooted : rooted = true → ups = 0
deriving DecidableEq

namespace Location

/-- The place that a path starts from: the root or the working directory. -/
def base (rooted : Bool) : Location := ⟨rooted, 0, [], fun _ => rfl⟩

/-- The place above. -/
def up (l : Location) : Location :=
  if l.names = [] then
    if h : l.rooted then l else ⟨l.rooted, l.ups + 1, [], fun hr => absurd hr h⟩
  else ⟨l.rooted, l.ups, l.names.dropLast, l.ups_of_rooted⟩

/-- The place below by some names. -/
def down (l : Location) (ns : List Name) : Location := ⟨l.rooted, l.ups, l.names ++ ns, l.ups_of_rooted⟩

/-- The place that an element of a path leads to. -/
def push (l : Location) (e : List Char) : Location :=
  if e = ['.', '.'] then l.up else if h : IsName e then l.down [⟨e, h⟩] else l

/-- The elements of the shortest path to a place. -/
def elements (l : Location) : List (List Char) :=
  List.replicate l.ups ['.', '.'] ++ l.names.map Subtype.val

/-- The shortest path to a place. -/
def text (l : Location) : List Char :=
  if l.rooted then '/' :: ['/'].intercalate l.elements
  else if l.elements = [] then ['.'] else ['/'].intercalate l.elements

/-- The names that lead from one place down to another. -/
def below? (l m : Location) : Option (List Name) :=
  if m.rooted = l.rooted ∧ m.ups = l.ups ∧ l.names <+: m.names then
    some (m.names.drop l.names.length)
  else none

end Location

open Location

/-- The place that a path leads to. -/
def resolve (p : List Char) : Location :=
  (p.splitOn '/').foldl push (base (p.head? = some '/'))

/-- `path.Clean`. -/
def clean (p : List Char) : List Char := (resolve p).text

/-- `path.Join` for two elements. -/
def join (p q : List Char) : List Char :=
  if p = [] then if q = [] then [] else clean q
  else if q = [] then clean p
  else clean (p ++ '/' :: q)

/-- The path that names lead down by. -/
def relative (p : List Name) : List Char := ['/'].intercalate (p.map Subtype.val)

/-! ## Going down -/

variable {l : Location} {e : List Char}

namespace Location

@[ext] theorem ext {m : Location} (hr : l.rooted = m.rooted) (hu : l.ups = m.ups) (hn : l.names = m.names) : l = m := by
  cases l
  cases m
  simp_all

@[simp] theorem down_nil (l : Location) : l.down [] = l := by
  ext1 <;> simp [down]

@[simp] theorem down_down (l : Location) (ns ms : List Name) : (l.down ns).down ms = l.down (ns ++ ms) := by
  ext1 <;> simp [down]

theorem down_injective (l : Location) : Function.Injective l.down := by
  intro ns ms h
  exact append_cancel_left (congrArg names h)

@[simp] theorem below?_down (l : Location) (ns : List Name) : l.below? (l.down ns) = some ns := by
  simp [below?, down]

@[simp] theorem push_nil (l : Location) : l.push [] = l := by
  simp [push, IsName]

theorem push_name (l : Location) (n : Name) : l.push n.1 = l.down [n] := by
  rw [push, if_neg n.2.2.2.1, dif_pos n.2]

theorem foldl_push_names (l : Location) (ns : List Name) : (ns.map Subtype.val).foldl push l = l.down ns := by
  induction ns generalizing l with
  | nil => simp
  | cons n ns ih =>
    rw [map_cons, foldl_cons, push_name, ih, down_down]
    rfl

theorem foldl_push_ups (l : Location) (hr : l.rooted = false) (hn : l.names = []) (k : ℕ) :
    (List.replicate k ['.', '.']).foldl push l = ⟨false, l.ups + k, [], by simp⟩ := by
  induction k generalizing l with
  | zero => ext1 <;> simp [hr, hn]
  | succ k ih => grind [up, push]

/-- The elements of a place lead to it. -/
theorem foldl_push_elements (l : Location) : l.elements.foldl push (base l.rooted) = l := by
  rw [elements, foldl_append, foldl_push_names]
  cases hr : l.rooted with
  | true =>
    rw [l.ups_of_rooted hr]
    ext1 <;> simp [down, base, hr, l.ups_of_rooted hr]
  | false =>
    rw [foldl_push_ups (base false) rfl rfl]
    ext1 <;> simp [down, base, hr]

theorem slash_notMem_elements (he : e ∈ l.elements) : '/' ∉ e := by grind [IsName, elements]

theorem elements_down (l : Location) (ns : List Name) : (l.down ns).elements = l.elements ++ ns.map Subtype.val := by
  simp [elements, down]

end Location

/-! ## Resolving -/

theorem splitOn_slash_append (p q : List Char) : (p ++ '/' :: q).splitOn '/' = p.splitOn '/' ++ q.splitOn '/' :=
  splitOnP_append_cons p q (by simp)

theorem splitOn_slash_of_notMem (h : '/' ∉ e) : e.splitOn '/' = [e] :=
  splitOnP_eq_singleton fun _ hc => beq_false_of_ne fun heq => h (heq ▸ hc)

/-- A relative path leads on from where the path before it leads to. -/
theorem resolve_append {p : List Char} (hp : p ≠ []) (q : List Char) :
    resolve (p ++ '/' :: q) = (q.splitOn '/').foldl push (resolve p) := by
  obtain ⟨c, cs, rfl⟩ := exists_cons_of_ne_nil hp
  rw [resolve, splitOn_slash_append, foldl_append]
  rfl

theorem resolve_of_slash_notMem (h : '/' ∉ e) : resolve e = (base false).push e := by
  have hhead : e.head? ≠ some '/' := fun heq => h (mem_of_head? heq)
  grind [splitOn_slash_of_notMem, resolve]

theorem splitOn_intercalate_elements (hne : l.elements ≠ []) :
    (['/'].intercalate l.elements).splitOn '/' = l.elements :=
  splitOn_intercalate '/' (fun _ he => slash_notMem_elements he) hne

/-- The shortest path to a place leads there. -/
theorem resolve_text (l : Location) : resolve l.text = l := by
  cases hr : l.rooted with
  | true =>
    have htext : l.text = [] ++ '/' :: ['/'].intercalate l.elements := by simp [text, hr]
    by_cases hne : l.elements = []
    · have hl : l = base true := by rw [← foldl_push_elements l, hne, hr]; rfl
      rw [hl]
      decide
    · conv_rhs => rw [← foldl_push_elements l, hr]
      rw [resolve, htext, splitOn_slash_append, splitOn_intercalate_elements hne]
      rfl
  | false =>
    by_cases hne : l.elements = []
    · have hl : l = base false := by rw [← foldl_push_elements l, hne, hr]; rfl
      rw [hl]
      decide
    · have htext : l.text = ['/'].intercalate l.elements := by simp [text, hr, hne]
      have hhead : l.text.head? ≠ some '/' := by
        obtain ⟨e, es, hes⟩ := exists_cons_of_ne_nil hne
        have he : e ≠ [] ∧ '/' ∉ e := by grind [slash_notMem_elements, elements, IsName]
        obtain ⟨c, cs, rfl⟩ := exists_cons_of_ne_nil he.1
        have hc : c ≠ '/' := fun h => he.2 (h ▸ mem_cons_self)
        rw [htext, hes]
        cases es <;> simpa [List.intercalate] using hc
      grind [foldl_push_elements, splitOn_intercalate_elements, resolve]

/-- `clean` does not change where a path leads to. -/
@[simp] theorem resolve_clean (p : List Char) : resolve (clean p) = resolve p := resolve_text _

/-- A single element is joined to a path by pushing it. -/
theorem resolve_join (p : List Char) (h : '/' ∉ e) : resolve (join p e) = (resolve p).push e := by
  have hnil : resolve [] = base false := by decide
  unfold join
  grind [push_nil, resolve_clean, resolve_of_slash_notMem, resolve_append, splitOn_slash_of_notMem]

theorem resolve_join_name (p : List Char) (n : Name) : resolve (join p n.1) = (resolve p).down [n] := by
  rw [resolve_join p n.2.2.2.2, push_name]

/-! ## Relative paths -/

/-- A relative path does not start with a slash. -/
theorem head?_relative (p : List Name) : (relative p).head? ≠ some '/' := by
  cases p with
  | nil => simp [relative]
  | cons n p =>
    obtain ⟨c, cs, hc⟩ := exists_cons_of_ne_nil n.2.1
    have hcne : c ≠ '/' := fun h => n.2.2.2.2 (by rw [hc, h]; exact mem_cons_self)
    cases p <;> simpa [relative, List.intercalate, hc] using hcne

/-- Relative paths are joined by going down. -/
theorem resolve_join_relative (dir : List Char) (p : List Name) :
    resolve (join dir (relative p)) = (resolve dir).down p := by
  by_cases hp : p = []
  · subst hp
    have hjoin : join dir [] = if dir = [] then [] else clean dir := by
      simp [join]
    rw [show relative [] = [] from rfl, hjoin, down_nil]
    split_ifs with h
    · rw [h]
    · exact resolve_clean dir
  · have hslash : ∀ e ∈ p.map Subtype.val, '/' ∉ e := by grind [IsName]
    have hsplit : (relative p).splitOn '/' = p.map Subtype.val :=
      splitOn_intercalate '/' hslash (by rwa [Ne, map_eq_nil_iff])
    have hne : relative p ≠ [] := by
      intro heq
      rw [heq] at hsplit
      cases p with
      | nil => exact hp rfl
      | cons n p =>
        rw [splitOn_nil, map_cons, List.cons.injEq] at hsplit
        exact n.2.1 hsplit.1.symm
    have hresolve : resolve (relative p) = (base false).down p := by
      rw [resolve, decide_eq_false (head?_relative p), hsplit, foldl_push_names]
    unfold join
    split_ifs with h
    · rw [resolve_clean, hresolve, h]
      rfl
    · rw [resolve_clean, resolve_append h, hsplit, foldl_push_names]

theorem relative_injective : Function.Injective relative := by
  intro p q h
  refine (base false).down_injective ?_
  have hnil : resolve [] = base false := by decide
  rw [← hnil, ← resolve_join_relative, ← resolve_join_relative, h]

theorem intercalate_slash_append {es fs : List (List Char)} (hes : es ≠ []) (hfs : fs ≠ []) :
    ['/'].intercalate (es ++ fs) = ['/'].intercalate es ++ '/' :: ['/'].intercalate fs := by
  induction es with
  | nil => exact absurd rfl hes
  | cons e es ih =>
    cases es with
    | nil =>
      obtain ⟨f, fs, rfl⟩ := exists_cons_of_ne_nil hfs
      simp [List.intercalate]
    | cons e' es =>
      have := ih (by simp)
      simp_all [List.intercalate]

/-- The shortest path to a place below, unless it is below the working directory. -/
theorem text_down (hl : l.elements ≠ []) {p : List Name} (hp : p ≠ []) :
    (l.down p).text = l.text ++ '/' :: relative p := by
  have hmap : p.map Subtype.val ≠ [] := by rwa [Ne, map_eq_nil_iff]
  have happend := intercalate_slash_append hl hmap
  cases hr : l.rooted with
  | true => grind [down, text, relative, elements]
  | false =>
    have hr' : (l.down p).rooted = false := hr
    have hl' : (l.down p).elements ≠ [] := by simp [elements_down, hl]
    grind [text, down, relative, elements]

end Radon.FileSystem
