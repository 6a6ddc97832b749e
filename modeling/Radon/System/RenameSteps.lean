import Radon.Router.Shift
import Radon.System.TableSteps

/-!
# Renaming a table

`renameImpl` takes the new name of a physical table from what stands behind its last underscore, and
`RenameTable` by replacing the first occurrence of the old name. Both give the same names for the tables that the
router creates. The backends rename before the router does, and nothing takes that back when the router refuses.
-/

namespace Radon.Proxy

open Concurrency List

/-! ## The two ways to the new names -/

variable {fromTable db : String} {slots : ℕ} {p : Partition} {T : Table}

/-- The planner and the router agree on the names of the physical tables. -/
theorem renameTarget_eq {plain : Bool} {name shardKey : String} (h : PhysicalName plain fromTable name)
    (hkey : shardKey = "" ↔ plain = true) (toTable : String) :
    renameTarget shardKey toTable name = renamed fromTable toTable name := by
  cases plain with
  | true =>
    have hplain : renamed fromTable toTable name = toTable := h.renamed toTable
    rw [renameTarget, if_neg (not_not.2 (hkey.2 rfl)), hplain]
  | false =>
    obtain ⟨k, rfl⟩ := h
    have hsplit : ((partitionName fromTable k).toList.splitOn '_').getLast? = some (nameSuffix k).tail := by
      rw [partitionName_toList, show nameSuffix k = '_' :: (nameSuffix k).tail from rfl,
        splitOn_append_cons_self, splitOn_eq_singleton (underscore_notMem_nameSuffix_tail k),
        List.getLast?_concat]
      rfl
    apply String.toList_inj.1
    rw [renameTarget, if_pos (fun hnil => nomatch hkey.1 hnil), hsplit, Radon.renamed, partitionName_toList,
      replaceFirst_append]
    simp [nameSuffix]

/-! ## What the router keeps of its tables -/

/-- The router works with the sharding keys of sound configurations. -/
def SoundRouter (r : Router) : Prop :=
  ∀ db t T, r.tables db t = some T → T.shardKey = T.tableConfig.shardKey ∧ SoundConfig T.tableConfig

section Step

variable {r r' : Router} (hr : SoundRouter r)

include hr in
theorem SoundRouter.put {t : String} {T : Option Table} (htables : r'.tables = updateEntry r.tables db t T)
    (hT : ∀ x ∈ T, x.shardKey = x.tableConfig.shardKey ∧ SoundConfig x.tableConfig) : SoundRouter r' := by
  intro d s S hS
  rw [htables, updateEntry] at hS
  split_ifs at hS
  · exact hT S hS
  · exact hr d s S hS

include hr in
theorem SoundRouter.create {written : Bool} {table : String} {conf : Except String TableConfig}
    (hconf : ∀ c, conf = .ok c → (∃ p, Partition.build r.slots c = .ok p) → SoundConfig c)
    (h : r.create written db table conf = (none, r')) : SoundRouter r' := by
  cases conf with
  | error e => cases h
  | ok c =>
    obtain ⟨-, p, hbuild, htables⟩ := Router.createTable_ok h
    grind [put]

include hr in
theorem SoundRouter.step (hn : r.Named) {op : RouterOp} (h : r.step op = (none, r')) : SoundRouter r' := by
  cases op with
  | createDatabase db =>
    cases h
    exact hr
  | createHashTable written db table shardKey backends partitionNum =>
    exact hr.create (fun c (hc : uniform r ⟨id, fun _ => .refl _⟩ table shardKey backends (.hash "" partitionNum) =
      .ok c) => uniform_sound hc) h
  | createListTable written order db table shardKey defs =>
    exact hr.create (fun c (hc : uniform r order table shardKey [] (.list "" defs) = .ok c) => uniform_sound hc) h
  | createGlobalTable written db table backends =>
    exact hr.create (fun c (hc : uniform r ⟨id, fun _ => .refl _⟩ table "" backends .global = .ok c) =>
      uniform_sound hc) h
  | createSingleTable written db table backends =>
    exact hr.create (fun c (hc : uniform r ⟨id, fun _ => .refl _⟩ table "" backends (.single "") = .ok c) =>
      uniform_sound hc) h
  | rename written removed db fromTable toTable =>
    obtain ⟨T, p, hT, -, -, htables⟩ := Router.renameTable_ok h
    obtain ⟨-, hparts, hkey, hslots⟩ := hr db fromTable T hT
    have herased : SoundRouter (r.removeTable db fromTable) := hr.put rfl nofun
    refine herased.put htables fun x hx => ?_
    cases hx
    exact ⟨rfl, by simpa [TableConfig.rename] using hparts, hkey, hslots⟩
  | shift written fromBackend toBackend db partitionTable found =>
    obtain ⟨T, moved, parts, p, hT, hmoved, hparts, -, htables⟩ := Router.partitionRuleShift_ok
      (fun T hT => ⟨(hn db found T hT).name, (hn db found T hT).suited.1⟩) h
    obtain ⟨-, -, hkey, hslots⟩ := hr db found T hT
    have hne : parts ≠ [] := by
      rw [hparts]
      split_ifs
      · simp
      · have hmem := (movePartition_physical hmoved).2.1
        rintro rfl
        cases hmem
    refine hr.put htables fun x hx => ?_
    cases hx
    exact ⟨rfl, hne, hkey, hslots⟩
  | dropTable removed db table =>
    simp only [Router.step] at h
    split at h
    · cases h
    split at h
    · cases h
      exact hr.put rfl nofun
    · cases h

end Step

theorem reachable_sound {blocks : ℕ} {ops : List RouterOp} {r : Router}
    (h : runSteps Router.accept (Router.init slots blocks) ops = some r) : r.Named ∧ SoundRouter r :=
  always_of_step (P := fun r => r.Named ∧ SoundRouter r) ⟨Router.named_init slots blocks, fun _ _ _ h => nomatch h⟩
    (fun _ _ _ _ _ _ hr hstep =>
      ⟨(hr.1.step (Router.step_of_accept hstep)).1, hr.2.step hr.1 (Router.step_of_accept hstep)⟩)
    ops r (prefix_refl _) h

/-! ## The partition under the new name -/

/-- A table that is built is built under its new name. -/
theorem build_rename {c : TableConfig} (hc : SoundConfig c) (h : Partition.build slots c = .ok p) (slots' : ℕ)
    (fromTable toTable : String) : ∃ p', Partition.build slots' (c.rename fromTable toTable) = .ok p' := by
  have hslots : Partition.build slots' c = Partition.build slots c := by
    grind [SoundConfig.slots, Partition.build]
  have hparts : (c.rename fromTable toTable).partitions =
      c.partitions.map (PartitionConfig.move fun x => (renamed fromTable toTable x.1, x.2)) := rfl
  rw [Partition.build_move hparts rfl rfl, hslots, h]
  exact ⟨_, rfl⟩

/-- `RenameTable` of a sound table: it is moved, or it stays with the partition it has. -/
theorem renameTable_cases {r : Router} {toTable : String}
    (hdb : r.databases db = true) (hT : r.tables db fromTable = some T) (hto : r.tables db toTable = none)
    (hc : SoundConfig T.tableConfig) (hp : Partition.build slots T.tableConfig = .ok p) (written removed : Bool) :
    let conf := T.tableConfig.rename fromTable toTable
    let out := r.renameTable written removed db fromTable toTable
    (nameInvalid toTable = false ∧ written = true ∧ ∃ p', Partition.build r.slots conf = .ok p' ∧
        out.2.tables db toTable = some ⟨toTable, conf.shardKey, some p', conf⟩) ∨
      (¬ (nameInvalid toTable = false ∧ written = true) ∧ out.1 ≠ none ∧ out.2.tables db toTable = none ∧
        out.2.tables db fromTable = some { T with tableConfig := conf }) := by
  intro conf out
  have hne : fromTable ≠ toTable := by
    rintro rfl
    cases hT.symm.trans hto
  have hbuild := build_rename hc hp r.slots fromTable toTable
  let changed := r.putTable db fromTable (some { T with tableConfig := conf })
  obtain ⟨hfrom, -, hnone⟩ := r.renamed_create written (t := T) (by simp [hdb]) hto hne
  have hchanged : changed.tables db toTable = none := (if_neg fun h => hne h.2.symm).trans hto
  rcases hcreated : changed.createTable written db toTable conf with ⟨_ | e, after⟩
  · obtain ⟨hname, -, hwritten⟩ := hnone.1 (congrArg Prod.fst hcreated)
    obtain ⟨-, p', hp', htables⟩ := Router.createTable_ok hcreated
    refine .inl ⟨hname, hwritten, p', hp', ?_⟩
    have hmoved : after.tables db toTable = some ⟨toTable, conf.shardKey, some p', conf⟩ := by
      rw [htables]
      exact if_pos ⟨rfl, rfl⟩
    have hout : out = if removed then (none, (after.removeTable db fromTable).putFile db fromTable none)
        else (some "remove.error", after.removeTable db fromTable) := by
      simp only [changed, conf] at hcreated
      simp only [out, Router.renameTable, hdb, hT, hto, Bool.true_eq_false, if_false, hcreated]
    rw [hout]
    cases removed <;> exact (if_neg fun h => hne h.2.symm).trans hmoved
  · have hfailed : ¬ (nameInvalid toTable = false ∧ written = true) := fun h =>
      Option.some_ne_none e ((congrArg Prod.fst hcreated).symm.trans (hnone.2 ⟨h.1, hbuild, h.2⟩))
    have hsame : changed.SameSchemas (changed.createTable written db conf.name conf).2 :=
      (Router.createTable_same_iff (by rw [show conf.name = toTable from rfl, hcreated]; exact Option.some_ne_none e)).2
        fun h => h.2.2.2 hbuild
    rw [show conf.name = toTable from rfl, hcreated] at hsame
    have hkept : after.tables db fromTable = some { T with tableConfig := conf } := by
      rw [← hfrom, hcreated]
    have hout : out = (some e, after) := by grind [Router.renameTable]
    rw [hout]
    exact .inr ⟨hfailed, Option.some_ne_none e, (congrFun (congrFun hsame.2 db) toTable).trans hchanged, hkept⟩

section Run

variable (env : Env) (ses : Session) (o : Answers)

/-- The physical tables after a list of renames that succeed. -/
theorem sendAll_rename (f : Location → String) (hfails : ∀ x, o.fails (.rename x (f x)) = false) {xs : List Location}
    (hdisjoint : ∀ x ∈ xs, ∀ y ∈ xs, x ≠ (y.1, y.2.1, f y)) (w : World) (y : Location) :
    (w.sendAll o (xs.map fun x => .rename x (f x))).physical y = true ↔
      y ∉ xs ∧ (w.physical y = true ∨ ∃ x ∈ xs, y = (x.1, x.2.1, f x) ∧ w.physical x = true) := by
  induction xs generalizing w with
  | nil => simp [World.sendAll]
  | cons x xs ih =>
    rw [map_cons, World.sendAll, hfails, ih fun a ha b hb => hdisjoint a (.tail _ ha) b (.tail _ hb)]
    have hperform (z : Location) : (w.perform (.rename x (f x))).physical z = true ↔
        z ≠ x ∧ (w.physical z = true ∨ z = (x.1, x.2.1, f x) ∧ w.physical x = true) := by
      rw [World.perform]
      simp only [Function.update_apply]
      by_cases hz : z = x
      · simp [hz]
      · by_cases hz' : z = (x.1, x.2.1, f x)
        · grind
        · simp [hz, hz']
    have hsource (z : Location) (hz : z ∈ xs) : z ≠ (x.1, x.2.1, f x) := hdisjoint z (.tail _ hz) x (.head _)
    have htarget (z : Location) (hz : z ∈ xs) : (z.1, z.2.1, f z) ≠ x := (hdisjoint x (.head _) z (.tail _ hz)).symm
    simp only [mem_cons, not_or, exists_eq_or_imp]
    grind

/-- `RENAME TABLE`: the backends and then the router. -/
theorem run_renameTable (w : World) (db query : String) (d : DDL) :
    let out := w.executeDDL env ses o db query d
    let changed := out.2.change o (.renameTable db d.table.name d.newName.name)
    w.run env o (renameTable env ses db query d) =
      if w.router.databases db = false then (.error ("Unknown database '" ++ db ++ "'"), w)
      else if (w.router.tables db d.table.name).isNone then (.error (noSuchTable d.table.name), w)
      else if (w.router.tables db d.newName.name).isSome then
        (.error ("Table '" ++ d.newName.name ++ "' already exists"), w)
      else match out.1 with
        | .error e => (.error e, out.2)
        | .ok () => (changed.1.elim (.ok ()) .error, changed.2) := by
  intro out changed
  rw [renameTable]
  cases hdb : w.router.databases db with
  | false => simp [hdb]
  | true =>
    simp only [run_bind, run_checkDatabase, hdb, if_true, run_raise, Option.elim_none, run_tableExists]
    cases hfrom : w.router.tables db d.table.name with
    | none => simp
    | some T =>
      cases hto : w.router.tables db d.newName.name with
      | some T' => simp [hto]
      | none =>
        simp only [Option.isSome_some, Bool.not_true, Bool.false_eq_true, if_false, run_bind, run_tableExists, hto,
          Option.isSome_none, run_executeDDL, run_changeRouter, run_raise, Bool.true_eq_false, Option.isNone_some]
        grind

/-- The statement passes the checks of `handleDDL` and of `renameImpl`, and its queries are sent. -/
def RenameSent (r : Router) (db : String) (d : DDL) : Prop :=
  r.databases db = true ∧ r.tables db d.table.name ≠ none ∧ r.tables db d.newName.name = none ∧
    ¬ Refused env ses o ∧ (d.newName.qualifier = "" ∨ d.newName.qualifier = db)

variable {w : World}

/-- A statement whose queries are not sent changes nothing. -/
theorem run_rename_refused {d : DDL} (query : String) (hd : d.action = .rename) (hdb : d.table.database db = db)
    (h : ¬ RenameSent env ses o w.router db d) : ∃ e, w.run env o (renameTable env ses db query d) = (.error e, w) := by
  rw [run_renameTable]
  split_ifs with hknown hfrom hto
  · exact ⟨_, rfl⟩
  · exact ⟨_, rfl⟩
  · exact ⟨_, rfl⟩
  · have herror : ∃ e, w.executeDDL env ses o db query d = (.error e, w) := by
      cases hplan : ddlPlan w.router db d with
      | error e => exact executeDDL_of_error env ses o query hplan
      | ok actions =>
        obtain ⟨-, ⟨e, he⟩, hsame⟩ | ⟨href, -⟩ := executeDDL_of_plan env ses o query hplan
        · exact ⟨e, Prod.ext he hsame⟩
        · have hqualifier : d.newName.qualifier = "" ∨ d.newName.qualifier = db := by
            by_contra hother
            rw [not_or] at hother
            simp only [ddlPlan, hd, hdb, hother, ne_eq, not_false_eq_true, and_self, if_true] at hplan
            cases hplan
          exact absurd ⟨by simpa using hknown, by simpa using hfrom, by simpa using hto, href, hqualifier⟩ h
    obtain ⟨e, he⟩ := herror
    exact ⟨e, by rw [he]⟩

/-- The world after the queries of a rename. -/
def World.renamedBy (w : World) (segs : List Segment) (shardKey db toTable : String) : World :=
  { w.sendAll o ((locations db segs).map fun x => .rename x (renameTarget shardKey toTable x.2.2)) with pending := [] }

/-- A statement whose queries are sent and succeed comes to the router. -/
theorem run_rename_sent {d : DDL} (query : String) (hd : d.action = .rename)
    (hdb : d.table.database db = db) (hempty : w.router.databases "" = false)
    (hfails : ∀ x name, o.fails (.rename x name) = false)
    (hT : w.router.tables db d.table.name = some T) (hp : T.partition = some p)
    (h : RenameSent env ses o w.router db d) :
    let changed := (w.renamedBy o p.getSegments T.shardKey db d.newName.name).change o
      (.renameTable db d.table.name d.newName.name)
    w.run env o (renameTable env ses db query d) = (changed.1.elim (.ok ()) .error, changed.2) := by
  intro changed
  obtain ⟨hknown, -, hto, href, hqualifier⟩ := h
  have hplan : ddlPlan w.router db d = .ok ((locations db p.getSegments).map fun x =>
      .rename x (renameTarget T.shardKey d.newName.name x.2.2)) := by
    have htable : w.router.getTable db d.table.name = .ok T := getTable_of_tables hempty hknown hT
    have hsame : ¬ (d.newName.qualifier ≠ "" ∧ d.newName.qualifier ≠ db) := fun h => hqualifier.elim h.1 h.2
    unfold ddlPlan
    simp only [hd, hdb, hsame, and_false, if_false, htable, lookupAll_of_table htable hp, bind, Except.bind, pure,
      Except.pure]
    rw [locations, map_map]
    rfl
  obtain ⟨href', -⟩ | ⟨-, heq⟩ := executeDDL_of_plan env ses o query hplan
  · exact absurd href' href
  · have hany : ((locations db p.getSegments).map fun x =>
        Action.rename x (renameTarget T.shardKey d.newName.name x.2.2)).any o.fails = false := by
      simp [any_map, hfails]
    rw [run_renameTable, heq]
    simp only [hknown, hT, hto, hany]
    rfl

/-- The router knows the table, and its physical tables are there. -/
def World.Carried (w : World) (db table : String) : Prop :=
  ∃ T p, w.router.tables db table = some T ∧ T.partition = some p ∧
    ∀ x ∈ locations db p.getSegments, w.physical x = true

/-- The physical tables of the source table have the names that the router knows, and after a success these are
the names of `renameImpl`. -/
def RenameInStep (w : World) (db : String) (d : DDL) (out : Except String Unit × World) : Prop :=
  (w.router.tables db d.table.name ≠ none →
      out.2.Carried db d.table.name ∨ out.2.Carried db d.newName.name) ∧
    (out.1 = .ok () → ∃ T T', w.router.tables db d.table.name = some T ∧
      out.2.router.tables db d.newName.name = some T' ∧ T'.tableConfig.partitions = T.tableConfig.partitions.map
        fun part => { part with table := renameTarget T.shardKey d.newName.name part.table })

/-- The physical tables after the queries of a rename: each has its new name and none its old one. -/
theorem renamedBy_physical (hfails : ∀ x name, o.fails (.rename x name) = false) (hn : T.Named fromTable)
    (hs : T.shardKey = T.tableConfig.shardKey) (hc : SoundConfig T.tableConfig)
    (hp : Partition.build slots T.tableConfig = .ok p) {toTable : String} (hne : fromTable ≠ toTable)
    (hthere : ∀ x ∈ locations db p.getSegments, w.physical x = true) : ∀ part ∈ T.tableConfig.partitions,
      renameTarget T.shardKey toTable part.table = renamed fromTable toTable part.table ∧
      (w.renamedBy o p.getSegments T.shardKey db toTable).physical (part.backend, db, part.table) = false ∧
      (w.renamedBy o p.getSegments T.shardKey db toTable).physical
        (part.backend, db, renamed fromTable toTable part.table) = true := by
  have hmem := mem_locations_of_build hp db
  have hname (part : PartitionConfig) (hpart : part ∈ T.tableConfig.partitions) :
      PhysicalName T.tableConfig.shardType.plain fromTable part.table :=
    hn.suited.2 part.physical (mem_map_of_mem hpart)
  have htarget (part : PartitionConfig) (hpart : part ∈ T.tableConfig.partitions) :
      renameTarget T.shardKey toTable part.table = renamed fromTable toTable part.table :=
    renameTarget_eq (hname part hpart) (hs ▸ hc.shardKey) toTable
  have hdisjoint : ∀ x ∈ locations db p.getSegments, ∀ y ∈ locations db p.getSegments,
      x ≠ (y.1, y.2.1, renameTarget T.shardKey toTable y.2.2) := by
    intro x hx y hy heq
    obtain ⟨part, hpart, rfl⟩ := mem_map.1 ((hmem x).1 hx)
    obtain ⟨part', hpart', rfl⟩ := mem_map.1 ((hmem y).1 hy)
    have hsame : part.table = renamed fromTable toTable part'.table :=
      (congrArg (fun z : Location => z.2.2) heq).trans (htarget part' hpart')
    exact hne ((hname part hpart).inj (hsame ▸ (hname part' hpart').renamed toTable))
  have hphysical := sendAll_rename o (fun x => renameTarget T.shardKey toTable x.2.2) (fun x => hfails x _) hdisjoint w
  intro part hpart
  have hsource : (part.backend, db, part.table) ∈ locations db p.getSegments := (hmem _).2 (mem_map_of_mem hpart)
  grind [World.renamedBy]

/-- In every state that accepted operations reach, a `RENAME TABLE` whose queries succeed keeps the router and the
backends in step exactly if its queries are not sent, or the router can take the new name and write its file. -/
theorem rename_inStep_iff {slots blocks : ℕ} {ops : List RouterOp} {w : World} (query : String) {d : DDL}
    (hreach : runSteps Router.accept (Router.init slots blocks) ops = some w.router)
    (hempty : w.router.databases "" = false) (hd : d.action = .rename)
    (hfails : ∀ x name, o.fails (.rename x name) = false)
    (hthere : w.router.tables (ddlDatabase ses d) d.table.name ≠ none → w.Carried (ddlDatabase ses d) d.table.name) :
    RenameInStep w (ddlDatabase ses d) d (w.run env o (ddlAction env ses query d)) ↔
      (RenameSent env ses o w.router (ddlDatabase ses d) d →
        nameInvalid d.newName.name = false ∧ o.written = true) := by
  set db := ddlDatabase ses d with hdbdef
  have hdb : d.table.database db = db := database_ddlDatabase ses (by simp [hd])
  have haction : ddlAction env ses query d = renameTable env ses db query d := by
    rw [ddlAction, hd]
  rw [haction]
  by_cases hsent : RenameSent env ses o w.router db d
  · obtain ⟨hnamed, hsound⟩ := reachable_sound hreach
    obtain ⟨T, p, hT, hp, hphys⟩ := hthere hsent.2.1
    obtain ⟨slots', p', hbuild, hp'⟩ := (hnamed db _ T hT).built
    obtain rfl := Option.some.inj (hp.symm.trans hp')
    obtain ⟨hkey, hconfig⟩ := hsound db _ T hT
    have hne : d.table.name ≠ d.newName.name := by
      intro heq
      have hto := hsent.2.2.1
      rw [← heq, hT] at hto
      cases hto
    have hmoved := renamedBy_physical o hfails (hnamed db _ T hT) hkey hconfig hbuild hne hphys
    rw [run_rename_sent env ses o query hd hdb hempty hfails hT hp hsent]
    set sent := w.renamedBy o p.getSegments T.shardKey db d.newName.name with hsentdef
    have hrouter : sent.router = w.router := (World.sendAll_frame o w _).1
    have hcases := renameTable_cases hsent.1 hT hsent.2.2.1 hconfig hbuild o.written o.removed
    have hchange : sent.change o (.renameTable db d.table.name d.newName.name) =
        ((w.router.renameTable o.written o.removed db d.table.name d.newName.name).1,
          { sent with router := (w.router.renameTable o.written o.removed db d.table.name d.newName.name).2 }) := by
      rw [World.change, hrouter]
    rw [hchange]
    obtain ⟨hname, hwritten, p', hp', hentry⟩ | ⟨hfailed, herror, hto, hfrom⟩ := hcases
    · refine iff_of_true ⟨fun _ => .inr ⟨_, p', hentry, rfl, fun x hx => ?_⟩, fun _ => ⟨T, _, hT, hentry, ?_⟩⟩
        fun _ => ⟨hname, hwritten⟩
      · have hx' := (mem_locations_of_build hp' db x).1 hx
        rw [targets, TableConfig.rename, List.map_map] at hx'
        obtain ⟨part, hpart, rfl⟩ := List.mem_map.1 hx'
        exact (hmoved part hpart).2.2
      · refine List.map_congr_left fun part hpart => ?_
        rw [(hmoved part hpart).1]
        rfl
    · refine iff_of_false (fun hin => ?_) fun h => hfailed (h hsent)
      obtain ⟨part, hpart⟩ := List.exists_mem_of_ne_nil _ hconfig.partitions
      have hsource : (part.backend, db, part.table) ∈ locations db p.getSegments :=
        (mem_locations_of_build hbuild db _).2 (List.mem_map_of_mem hpart)
      obtain ⟨S, q, hS, hq, hall⟩ | ⟨S, q, hS, -⟩ := hin.1 hsent.2.1
      · obtain rfl := Option.some.inj (hfrom.symm.trans hS)
        obtain rfl := Option.some.inj (hp.symm.trans hq)
        exact Bool.false_ne_true ((hmoved part hpart).2.1.symm.trans (hall _ hsource))
      · cases hto.symm.trans hS
  · obtain ⟨e, he⟩ := run_rename_refused env ses o query hd hdb hsent
    rw [he]
    exact iff_of_true ⟨fun h => .inl (hthere h), fun hok => by cases hok⟩ fun h => absurd h hsent

end Run

/-- A global table is renamed on both backends and in the router. -/
theorem global_renamed :
    let d : DDL := { action := .rename, table := ⟨"", "t"⟩, newName := ⟨"", "u"⟩ }
    RenameInStep globalWorld "db" d (globalWorld.run plainEnv (twoBackends true fun _ => false)
      (ddlAction plainEnv ⟨"db", "u", false, false⟩ "" d)) := by
  intro d
  have hreach : runSteps Router.accept (Router.init 8 2)
      [.createDatabase "db", .createGlobalTable true "db" "t" ["b0", "b1"]] = some globalWorld.router := rfl
  have hcarried : globalWorld.Carried "db" "t" := ⟨_, _, rfl, rfl, by decide +kernel⟩
  have hdb : ddlDatabase ⟨"db", "u", false, false⟩ d = "db" := by decide +kernel
  have hiff := rename_inStep_iff plainEnv ⟨"db", "u", false, false⟩ (twoBackends true fun _ => false) "" hreach
    (by decide +kernel) (show d.action = .rename from rfl) (fun _ _ => rfl) (by rw [hdb]; exact fun _ => hcarried)
  rw [hdb] at hiff
  exact hiff.2 fun _ => ⟨by decide +kernel, rfl⟩

/-- The router refuses a name with a space after the backends have renamed the table. -/
theorem refused_rename_lost :
    let out := globalWorld.run plainEnv (twoBackends true fun _ => false) (ddlAction plainEnv ⟨"db", "u", false, false⟩ ""
      { action := .rename, table := ⟨"", "t"⟩, newName := ⟨"", "a b"⟩ })
    out.1 = .error "invalid.table.name[a b]" ∧
      out.2.router.lookupAll "db" "t" = globalWorld.router.lookupAll "db" "t" ∧
      out.2.physical ("b0", "db", "t") = false ∧ out.2.physical ("b0", "db", "a b") = true := by
  decide +kernel

end Radon.Proxy
