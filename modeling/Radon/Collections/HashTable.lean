import Mathlib.Data.List.Basic
import Mathlib.Data.List.Perm.Basic

/-!
# Hash tables with chains

A table has one chain of entries for every hash that occurred, in the order of their first occurrence. An
entry collects all values that were put under its key. The hash only decides on the chain: what is found
under a key, and which entries there are, does not depend on it.
-/

namespace Radon.Collections

open List

variable {B K V : Type}

/-- A key with its values. -/
abbrev Entry (K V : Type) := K × List V

/-- The chains, each with its hash, and the number of calls of `put`. -/
structure HashTable (B K V : Type) where
  chains : List (B × List (Entry K V))
  size : ℕ

section Chain

variable [DecidableEq K]

/-- Put a value into a chain: to the entry of its key, or as a new entry at the end. -/
def putEntry (key : K) (value : V) : List (Entry K V) → List (Entry K V)
  | [] => [(key, [value])]
  | (k, values) :: entries =>
    if k = key then (k, values ++ [value]) :: entries else (k, values) :: putEntry key value entries

/-- The values under a key of a chain. -/
def getEntry (key : K) : List (Entry K V) → Option (List V)
  | [] => none
  | (k, values) :: entries => if k = key then some values else getEntry key entries

theorem getEntry_putEntry_isSome (key k : K) (value : V) (entries : List (Entry K V)) :
    (getEntry k (putEntry key value entries)).isSome = true ↔ k = key ∨ (getEntry k entries).isSome = true := by
  induction entries with
  | nil => grind [getEntry, putEntry]
  | cons entry entries ih =>
    obtain ⟨k', values⟩ := entry
    grind [getEntry, putEntry]

theorem putEntry_of_getEntry_eq_none {key : K} (value : V) {entries : List (Entry K V)}
    (h : getEntry key entries = none) : putEntry key value entries = entries ++ [(key, [value])] := by
  induction entries with
  | nil => rfl
  | cons entry entries ih => grind [putEntry, getEntry]

end Chain

section Chains

variable [DecidableEq B] [DecidableEq K]

/-- Put a value into the chain of its hash, or into a new chain at the end. -/
def putChains (b : B) (key : K) (value : V) :
    List (B × List (Entry K V)) → List (B × List (Entry K V))
  | [] => [(b, [(key, [value])])]
  | (b', entries) :: chains =>
    if b' = b then (b', putEntry key value entries) :: chains
    else (b', entries) :: putChains b key value chains

/-- The values under a key in the chain of its hash. -/
def getChains (b : B) (key : K) : List (B × List (Entry K V)) → Option (List V)
  | [] => none
  | (b', entries) :: chains => if b' = b then getEntry key entries else getChains b key chains

theorem getChains_putChains_isSome {hash : K → B} (key k : K) (value : V) (chains : List (B × List (Entry K V))) :
    (getChains (hash k) k (putChains (hash key) key value chains)).isSome = true ↔
      k = key ∨ (getChains (hash k) k chains).isSome = true := by
  induction chains with
  | nil => grind [getChains, putChains, getEntry]
  | cons chain chains ih =>
    obtain ⟨b, entries⟩ := chain
    grind [getEntry_putEntry_isSome, getChains, putChains]

theorem flatMap_putChains_perm {b : B} {key : K} (value : V) {chains : List (B × List (Entry K V))}
    (h : getChains b key chains = none) :
    ((putChains b key value chains).flatMap Prod.snd).Perm (chains.flatMap Prod.snd ++ [(key, [value])]) := by
  induction chains with
  | nil => exact .refl _
  | cons chain chains ih =>
    simp only [getChains] at h
    simp only [putChains]
    split_ifs at h ⊢ with hb
    · simp only [flatMap_cons, putEntry_of_getEntry_eq_none value h, append_assoc]
      exact (perm_append_comm).append_left _
    · simp only [flatMap_cons, append_assoc]
      exact (ih h).append_left _

end Chains

namespace HashTable

/-- A table without entries. -/
def empty : HashTable B K V := ⟨[], 0⟩

/-- The entries in the order of iteration. -/
def entries (t : HashTable B K V) : List (Entry K V) := t.chains.flatMap Prod.snd

@[simp] theorem entries_empty : (empty : HashTable B K V).entries = [] := rfl

variable [DecidableEq B] [DecidableEq K] (hash : K → B)

/-- Put a value under a key. -/
def put (t : HashTable B K V) (key : K) (value : V) : HashTable B K V :=
  ⟨putChains (hash key) key value t.chains, t.size + 1⟩

/-- The values under a key. -/
def get (t : HashTable B K V) (key : K) : Option (List V) := getChains (hash key) key t.chains

@[simp] theorem get_empty (key : K) : (empty : HashTable B K V).get hash key = none := rfl

/-- After a value is put under a key, that key is found too. -/
theorem get_put_isSome (t : HashTable B K V) (key k : K) (value : V) :
    ((t.put hash key value).get hash k).isSome = true ↔ k = key ∨ (t.get hash k).isSome = true :=
  getChains_putChains_isSome key k value t.chains

/-- A new key makes one new entry. -/
theorem entries_put_perm (t : HashTable B K V) {key : K} (value : V) (h : t.get hash key = none) :
    (t.put hash key value).entries.Perm (t.entries ++ [(key, [value])]) :=
  flatMap_putChains_perm value h

end HashTable

end Radon.Collections
