import Radon.Metadata.Frm
import Radon.Proxy.Ddl
import Radon.Router.Ownership

/-!
# Cleaning up behind the others

`Cleanup` looks for databases and tables on the backends that the router does not know, and drops each of them in a
second step. Meanwhile other connections create databases and tables, attach backends and run shifts. `ATTACH` adds
the backend before the router knows its databases, and nothing holds what has been checked until it is dropped.
-/

namespace Radon.Cleanup

open Concurrency Proxy List

/-- A shift that fills a table on a backend. -/
structure ShiftTo where
  toDatabase : String
  toTable : String
  toBackend : String
  deriving DecidableEq

/-- The key of a shift in the manager. -/
def shiftKey (database table backend : String) : String := "`" ++ database ++ "`.`" ++ table ++ "`_" ++ backend

def ShiftTo.key (i : ShiftTo) : String := shiftKey i.toDatabase i.toTable i.toBackend

/-- The database, the table and the backend that `prepareTable` of the shift writes to. -/
def ShiftTo.target (i : ShiftTo) : String × String × String := (i.toDatabase, i.toTable ++ "_migrate", i.toBackend)

/-- What `Cleanup` and the others share: the router, the backends between `scatter.Add` and the end of their `ATTACH`,
and the shifts that the manager has as migrating. -/
structure World where
  router : Router
  attaching : List String
  migrating : List ShiftTo

/-- The two queries for tables. -/
inductive Suffix
  | cleanup
  | migrate
  deriving DecidableEq

def Suffix.text : Suffix → List Char
  | .cleanup => "cleanup".toList
  | .migrate => "migrate".toList

/-- `table_name like '%_cleanup'`: the underscore stands for any character, and the case does not matter. -/
def Suffix.like (s : Suffix) (table : String) : Bool :=
  decide (s.text <:+ table.toList.map Char.toLower) && decide (s.text.length < table.toList.length)

/-- `strings.TrimSuffix` of `_migrate`. -/
def trimMigrate (table : String) : String :=
  if "_migrate".toList <:+ table.toList then String.ofList (table.toList.take (table.toList.length - 8)) else table

/-- What `cleanupHandler` may drop. -/
inductive Object
  | database (backend db : String)
  | table (suffix : Suffix) (backend db table : String)

/-- The backend on which the object is. -/
def Object.backend : Object → String
  | .database backend _ | .table _ backend _ _ => backend

/-- The checks of `cleanupHandler`. -/
def World.leftOver (w : World) : Object → Bool
  | .database _ db => !isSystemDB db && !w.router.databases db
  | .table suffix backend db table => suffix.like table && (w.router.tables db table).isNone &&
      (suffix = .cleanup || w.migrating.all fun i => i.key ≠ shiftKey db (trimMigrate table) backend)

/-- The world, and what `Cleanup` has checked and is about to drop. -/
structure State where
  world : World
  pending : Option Object

/-- A step of `Cleanup` or of another connection. -/
inductive Action
  | check (o : Object)
  | drop
  | router (op : RouterOp)
  | dropDatabase (db : String)
  | attach (backend : String)
  | attached (backend : String)
  | start (i : ShiftTo)
  | finish (i : ShiftTo)

/-- The router after a call of `CREATE DATABASE`, `CREATE TABLE`, `ATTACH` or a shift, also one that fails. -/
def routerCall (r : Router) : RouterOp → Option Router
  | .rename .. => none
  | op => some (r.step op).2

/-- The next state; `Cleanup` drops what it has found before it goes on. -/
def act (s : State) : Action → Option State
  | .check o =>
    match s.pending with
    | some _ => none
    | none => some (if s.world.leftOver o then { s with pending := some o } else s)
  | .drop => s.pending.map fun _ => { s with pending := none }
  | .router op => (routerCall s.world.router op).map fun r => { s with world := { s.world with router := r } }
  | .dropDatabase db =>
    some { s with world := { s.world with router := Metadata.deleteDatabase s.world.router db } }
  | .attach backend => some { s with world := { s.world with attaching := backend :: s.world.attaching } }
  | .attached backend => some { s with world := { s.world with attaching := s.world.attaching.erase backend } }
  | .start i => some { s with world := { s.world with migrating := i :: s.world.migrating } }
  | .finish i => some { s with world := { s.world with migrating := s.world.migrating.erase i } }

/-! ## Names -/

theorem getLast_of_isSuffix {α : Type} {xs ys : List α} (hne : xs ≠ []) (h : xs <:+ ys) :
    ys.getLast? = xs.getLast? := by
  obtain ⟨pre, rfl⟩ := h
  exact List.getLast?_append_of_ne_nil pre hne

theorem Suffix.getLast_of_like {s : Suffix} {table : String} (h : s.like table = true) :
    (table.toList.getLast?).map Char.toLower = s.text.getLast? := by
  have hsuffix : s.text <:+ table.toList.map Char.toLower := of_decide_eq_true (Bool.and_eq_true_iff.1 h).1
  rw [← List.getLast?_map]
  exact getLast_of_isSuffix (by cases s <;> decide) hsuffix

theorem toLower_of_isDigit {c : Char} (h : c.isDigit = true) : c.toLower = c := by
  simp only [Char.isDigit, Bool.and_eq_true, decide_eq_true_eq] at h
  unfold Char.toLower
  split
  · grind
  · rfl

/-- The name of a partition ends with a digit. -/
theorem not_like_partitionName (s : Suffix) (t : String) (k : ℕ) : s.like (partitionName t k) = false := by
  by_contra h
  have hlast := Suffix.getLast_of_like (Bool.not_eq_false _ ▸ h)
  have hdigits : Nat.toDigits 10 k <:+ (partitionName t k).toList :=
    ⟨t.toList ++ '_' :: List.replicate (4 - (Nat.toDigits 10 k).length) '0', by simp [partitionName_toList, nameSuffix]⟩
  rw [getLast_of_isSuffix Nat.toDigits_ne_nil hdigits, List.getLast?_eq_some_getLast Nat.toDigits_ne_nil,
    Option.map_some] at hlast
  have hdigit := isDigit_toDigits (getLast_mem (l := Nat.toDigits 10 k) Nat.toDigits_ne_nil)
  rw [toLower_of_isDigit hdigit] at hlast
  cases s with
  | cleanup | migrate =>
    rw [Option.some.inj hlast] at hdigit
    exact absurd hdigit (by decide)

theorem trimMigrate_append (table : String) : trimMigrate (table ++ "_migrate") = table := by
  simp [trimMigrate]

/-- The tables that shifts fill are not among those of the first query. -/
theorem not_like_target (table : String) : Suffix.like .cleanup (table ++ "_migrate") = false := by
  by_contra h
  have hlast := Suffix.getLast_of_like (Bool.not_eq_false _ ▸ h)
  rw [String.toList_append, List.getLast?_append_of_ne_nil _ (by decide)] at hlast
  exact absurd hlast (by decide)

/-! ## What the router owns -/

/-- The physical tables of a table have the names that belong to its name, and so has its partition. -/
structure Suits (T : Table) (t : String) : Prop where
  name : T.name = t
  suited : T.tableConfig.Suited t
  built : ∀ p, T.partition = some p → ∃ slots, Partition.build slots T.tableConfig = .ok p

theorem Suits.physicalName {T : Table} {t : String} (h : Suits T t) {x : String × String} (hx : T.Owns x) :
    PhysicalName T.tableConfig.shardType.plain t x.1 := by
  obtain hx | ⟨p, hp, hx⟩ := hx
  · exact h.suited.2 x hx
  · obtain ⟨slots, hbuild⟩ := h.built p hp
    exact h.suited.2 x ((Partition.build_physical hbuild).mem_iff.1 hx)

/-- All tables of the router are under their own names. -/
def RouterSuits (r : Router) : Prop := ∀ db t T, r.tables db t = some T → Suits T t

/-- The table that an operation enters in the router. -/
def enters : RouterOp → Option String
  | .createHashTable _ _ table _ _ _ | .createListTable _ _ _ table _ _ | .createGlobalTable _ _ table _
  | .createSingleTable _ _ table _ | .shift _ _ _ _ _ table => some table
  | _ => none

/-- The configuration of a table that is entered suits its name. -/
theorem RouterSuits.confOf {r : Router} (h : RouterSuits r) {op : RouterOp} {conf : TableConfig}
    (hconf : r.ConfOf op conf) (hne : ∀ w m db t u, op ≠ .rename w m db t u) :
    enters op = some conf.name ∧ conf.Suited conf.name := by
  have hself {t : String} (hop : enters op = some t) (hs : conf.Suited t) :
      enters op = some conf.name ∧ conf.Suited conf.name := by
    rw [hs.1]
    exact ⟨hop, hs⟩
  cases hconf with
  | hash hc => exact hself rfl (hashUniform_suited hc).1
  | list hc => exact hself rfl (listUniform_suited hc).1
  | global hc =>
    obtain ⟨hname, htype, hphysical⟩ := globalUniform_ok hc
    exact hself rfl (suited_of_plain hname (htype ▸ rfl) hphysical)
  | single hc =>
    obtain ⟨hname, htype, hphysical⟩ := singleUniform_ok hc
    exact hself rfl (suited_of_plain hname (htype ▸ rfl) hphysical)
  | rename => exact absurd rfl (hne _ _ _ _ _)
  | @shift _ _ _ db _ found S _ hS hmoved =>
    have hsuits := h db found S hS
    obtain ⟨⟨part, hpart, rfl⟩, -, hsub⟩ := movePartition_physical hmoved
    refine hself (t := found) rfl ⟨hsuits.suited.1, fun x hx => ?_⟩
    simp only [TableConfig.physicals, Table.shifted] at hx
    split_ifs at hx with hglobal
    · rw [map_append, mem_append] at hx
      obtain hx | hx := hx
      · exact hsuits.suited.2 x hx
      · obtain rfl := mem_singleton.1 hx
        simp only [Table.shifted, hglobal]
        exact hsuits.name
    · obtain rfl | hx := hsub x hx
      · exact hsuits.suited.2 part.physical (mem_map_of_mem hpart)
      · exact hsuits.suited.2 x hx

section Call

variable {r r' : Router} {op : RouterOp}

/-- A call of the others is any operation but `RENAME`. -/
theorem routerCall_eq (h : routerCall r op = some r') :
    r' = (r.step op).2 ∧ ∀ w m db t u, op ≠ .rename w m db t u := by
  cases op with
  | rename => cases h
  | _ => exact ⟨(Option.some.inj h).symm, nofun⟩

/-- A table after a call was there before, or the call has entered it. -/
theorem RouterSuits.tables_of_call (h : RouterSuits r) (hcall : routerCall r op = some r') {db t : String} {T : Table}
    (hT : r'.tables db t = some T) : r.tables db t = some T ∨ enters op = some t ∧ Suits T t := by
  obtain ⟨rfl, hne⟩ := routerCall_eq hcall
  obtain hT | ⟨w, m, S, u, heq, -⟩ | ⟨conf, hconf, rfl, rfl⟩ :=
    Router.step_tables (fun d n S hS => (h d n S hS).name) hT
  · exact .inl hT
  · exact absurd heq (hne w m db t u)
  · obtain ⟨hop, hsuited⟩ := h.confOf hconf hne
    exact .inr ⟨hop, rfl, hsuited, fun p hp => ⟨r.slots, TableConfig.build_of_entry hp⟩⟩

/-- The calls keep the tables under their names. -/
theorem RouterSuits.call (h : RouterSuits r) (hcall : routerCall r op = some r') : RouterSuits r' := by
  intro db t T hT
  obtain hT | ⟨-, hsuits⟩ := h.tables_of_call hcall hT
  · exact h db t T hT
  · exact hsuits

end Call

theorem addTable_databases (r : Router) (db : String) (conf : TableConfig) :
    (r.addTable db conf).2.databases = r.databases := by
  simp only [Router.addTable]
  split_ifs
  · rfl
  · split
    · rfl
    · split <;> rfl

theorem create_databases (r : Router) (written : Bool) (db table : String) (conf : Except String TableConfig) :
    (r.create written db table conf).2.databases = r.databases := by
  cases conf with
  | error e => rfl
  | ok conf =>
    have hadd := addTable_databases r db conf
    simp only [Router.create, Router.createTable]
    split_ifs
    · rfl
    · split <;> rename_i heq <;> rw [heq] at hadd <;> exact hadd
    · split <;> rename_i heq <;> rw [heq] at hadd <;> exact hadd

/-- A database is new after a call only if the call creates it. -/
theorem databases_of_call {r r' : Router} {op : RouterOp} (hcall : routerCall r op = some r') {db : String}
    (h : r'.databases db = true) : r.databases db = true ∨ op = .createDatabase db := by
  cases op with
  | createDatabase d =>
    cases hcall
    obtain rfl | hne := eq_or_ne db d
    · exact .inr rfl
    · exact .inl ((Function.update_of_ne hne ..).symm.trans h)
  | rename => cases hcall
  | createHashTable | createListTable | createGlobalTable | createSingleTable =>
    cases hcall
    exact .inl (congrFun (create_databases r _ _ _ _) db ▸ h)
  | dropTable removed d table =>
    cases hcall
    refine .inl ?_
    simp only [Router.step] at h
    split at h
    · exact h
    · split_ifs at h <;> exact h
  | shift written fromBackend toBackend d partitionTable found =>
    cases hcall
    refine .inl ?_
    simp only [Router.step, Router.partitionRuleShift] at h
    split at h
    · exact h
    · rename_i changed hchange
      obtain ⟨-, -, S, moved, -, rfl, -, rfl⟩ := Router.changeTheRuleBackend_ok hchange
      simp only [Router.refreshTable] at h
      split at h
      · exact h
      · split at h
        · exact h
        · rwa [addTable_databases] at h

/-! ## Live objects -/

/-- The router owns the object, its backend is being attached, or a shift fills it. -/
def World.Live (w : World) : Object → Prop
  | .database backend db => w.router.databases db = true ∨ backend ∈ w.attaching
  | .table _ backend db table =>
    (∃ t T, w.router.tables db t = some T ∧ T.Owns (table, backend)) ∨ backend ∈ w.attaching ∨
      ∃ i ∈ w.migrating, i.target = (db, table, backend)

/-- Only the table of that name may own what the two queries find. -/
theorem RouterSuits.name_of_owns {r : Router} (hr : RouterSuits r) {suffix : Suffix} {backend db table t : String}
    {T : Table} (hT : r.tables db t = some T) (howns : T.Owns (table, backend)) (hlike : suffix.like table = true) :
    t = table := by
  have hname := (hr db t T hT).physicalName howns
  cases hplain : T.tableConfig.shardType.plain with
  | true =>
    rw [hplain] at hname
    exact hname.symm
  | false =>
    rw [hplain] at hname
    obtain ⟨k, rfl⟩ := hname
    cases hlike.symm.trans (not_like_partitionName suffix t k)

/-- What `cleanupHandler` finds is not live, unless its backend is being attached. -/
theorem not_live_of_leftOver {w : World} (hw : RouterSuits w.router) {o : Object} (h : w.leftOver o = true)
    (hbackend : o.backend ∉ w.attaching) : ¬ w.Live o := by
  cases o with
  | database backend db =>
    have hnone : w.router.databases db = false := by simpa using (Bool.and_eq_true_iff.1 h).2
    rintro (hdb | hattaching)
    · cases hnone.symm.trans hdb
    · exact hbackend hattaching
  | table suffix backend db table =>
    simp only [World.leftOver, Bool.and_eq_true, Bool.or_eq_true, decide_eq_true_eq, all_eq_true,
      Option.isNone_iff_eq_none] at h
    obtain ⟨⟨hlike, hnone⟩, hshift⟩ := h
    rintro (⟨t, T, hT, howns⟩ | hattaching | ⟨i, hi, htarget⟩)
    · rw [hw.name_of_owns hT howns hlike] at hT
      cases hnone.symm.trans hT
    · exact hbackend hattaching
    · obtain ⟨rfl, htable⟩ := Prod.mk.inj htarget
      obtain ⟨rfl, rfl⟩ := Prod.mk.inj htable
      obtain rfl | hkey := hshift
      · cases hlike.symm.trans (not_like_target i.toTable)
      · exact hkey i hi (by rw [trimMigrate_append]; rfl)

/-! ## Runs -/

/-- A step of another connection registers an object: it begins to attach its backend, creates its database, creates
or shifts a table of its name, or starts a shift that fills it. -/
def Registers : Object → Action → Prop
  | o, .attach backend => backend = o.backend
  | .database _ db, .router op => op = .createDatabase db
  | .table _ _ _ table, .router op => enters op = some table
  | .table _ backend db table, .start i => i.target = (db, table, backend)
  | _, _ => False

/-- A step that does not overlap: an object is not checked while its backend is being attached, and it is not
registered between its check and its `DROP`. -/
def Apart (s : State) (a : Action) : Prop :=
  (∀ o, a = .check o → o.backend ∉ s.world.attaching) ∧ ∀ o, s.pending = some o → ¬ Registers o a

/-- What is pending is not live, and a table has a name that the queries find. -/
structure Spared (s : State) : Prop where
  suits : RouterSuits s.world.router
  like : ∀ suffix backend db table, s.pending = some (.table suffix backend db table) → suffix.like table = true
  dead : ∀ o, s.pending = some o → ¬ s.world.Live o

/-- A call of the router that does not register a pending object leaves it without an owner. -/
theorem Spared.router {s : State} (h : Spared s) {op : RouterOp} {r : Router}
    (hcall : routerCall s.world.router op = some r) (hapart : ∀ o, s.pending = some o → ¬ Registers o (.router op)) :
    Spared { s with world := { s.world with router := r } } := by
  have hsuits := h.suits.call hcall
  refine ⟨hsuits, h.like, fun o ho => ?_⟩
  cases o with
  | database backend db =>
    rintro (hdb | hattaching)
    · obtain hold | hop := databases_of_call hcall hdb
      · exact h.dead _ ho (.inl hold)
      · exact hapart _ ho hop
    · exact h.dead _ ho (.inr hattaching)
  | table suffix backend db table =>
    rintro (⟨t, T, hT, howns⟩ | hrest)
    · obtain hold | ⟨hop, -⟩ := h.suits.tables_of_call hcall hT
      · exact h.dead _ ho (.inl ⟨t, T, hold, howns⟩)
      · rw [hsuits.name_of_owns hT howns (h.like _ _ _ _ ho)] at hop
        exact hapart _ ho hop
    · exact h.dead _ ho (.inr hrest)

/-- Objects that were live are live where there is more to keep them so. -/
theorem World.Live.mono {w w' : World} {o : Object} (h : w.Live o)
    (hdatabases : ∀ db, w.router.databases db = true → w'.router.databases db = true)
    (htables : ∀ db t T, w.router.tables db t = some T → w'.router.tables db t = some T)
    (hattaching : ∀ b ∈ w.attaching, b ∈ w'.attaching) (hmigrating : ∀ i ∈ w.migrating, i ∈ w'.migrating) :
    w'.Live o := by
  cases o with
  | database backend db => exact h.imp (hdatabases db) (hattaching backend)
  | table suffix backend db table =>
    obtain ⟨t, T, hT, howns⟩ | hb | ⟨i, hi, htarget⟩ := h
    · exact .inl ⟨t, T, htables db t T hT, howns⟩
    · exact .inr (.inl (hattaching backend hb))
    · exact .inr (.inr ⟨i, hmigrating i hi, htarget⟩)

/-- Every step that does not overlap keeps what is pending from being live. -/
theorem Spared.act {s s' : State} (h : Spared s) {a : Action} (hapart : Apart s a) (hact : act s a = some s') :
    Spared s' := by
  cases a with
  | check o =>
    simp only [Cleanup.act] at hact
    split at hact
    · cases hact
    split_ifs at hact with hleft
    · cases hact
      refine ⟨h.suits, ?_, ?_⟩
      · rintro suffix backend db table ⟨⟩
        simp only [World.leftOver, Bool.and_eq_true] at hleft
        exact hleft.1.1
      · rintro _ ⟨⟩
        exact not_live_of_leftOver h.suits hleft (hapart.1 o rfl)
    · cases hact
      exact h
  | drop =>
    obtain ⟨_, -, rfl⟩ := Option.map_eq_some_iff.1 hact
    exact ⟨h.suits, nofun, nofun⟩
  | router op =>
    obtain ⟨r, hcall, rfl⟩ := Option.map_eq_some_iff.1 hact
    exact h.router hcall hapart.2
  | dropDatabase db =>
    cases hact
    have htables {d t : String} {T : Table} (hT : (Metadata.deleteDatabase s.world.router db).tables d t = some T) :
        s.world.router.tables d t = some T := by
      simp only [Metadata.deleteDatabase, Function.update_apply, ite_apply] at hT
      split_ifs at hT
      exact hT
    have hdatabases {d : String} (hd : (Metadata.deleteDatabase s.world.router db).databases d = true) :
        s.world.router.databases d = true := by
      simp only [Metadata.deleteDatabase, Function.update_apply] at hd
      split_ifs at hd
      exact hd
    exact ⟨fun d t T hT => h.suits d t T (htables hT), h.like,
      fun o ho hlive => h.dead o ho (hlive.mono (fun _ => hdatabases) (fun _ _ _ => htables) (fun _ => id) fun _ => id)⟩
  | attach backend =>
    cases hact
    refine ⟨h.suits, h.like, fun o ho hlive => ?_⟩
    have hne : o.backend ≠ backend := fun heq => hapart.2 o ho heq.symm
    cases o with
    | database b db =>
      exact h.dead _ ho (hlive.imp id fun hb => (mem_cons.1 hb).resolve_left hne)
    | table suffix b db table =>
      exact h.dead _ ho (hlive.imp id (Or.imp (fun hb => (mem_cons.1 hb).resolve_left hne) id))
  | attached backend =>
    cases hact
    exact ⟨h.suits, h.like, fun o ho hlive => h.dead o ho
      (hlive.mono (fun _ => id) (fun _ _ _ => id) (fun _ => mem_of_mem_erase) fun _ => id)⟩
  | start i =>
    cases hact
    refine ⟨h.suits, h.like, fun o ho hlive => ?_⟩
    cases o with
    | database b db => exact h.dead _ ho hlive
    | table suffix b db table =>
      refine h.dead _ ho (hlive.imp id (Or.imp id ?_))
      rintro ⟨j, hj, htarget⟩
      obtain rfl | hj := mem_cons.1 hj
      · exact absurd htarget (hapart.2 _ ho)
      · exact ⟨j, hj, htarget⟩
  | finish i =>
    cases hact
    exact ⟨h.suits, h.like, fun o ho hlive => h.dead o ho
      (hlive.mono (fun _ => id) (fun _ _ _ => id) (fun _ => id) fun _ => mem_of_mem_erase)⟩

/-- A proxy without databases. -/
def idle : World := ⟨Router.init 4 2, [], []⟩

end Radon.Cleanup
