import Radon.Proxy.QuerySpec

/-!
# Privileges on every path

A user may read or write rows only after a check of that user has asked for the privilege on the
databases of the tables concerned. `ExecuteDML` and `handleDDL` check; the texts of connectors, streams,
selects from `dual` or a system database, the maintenance of tables, most `SHOW` commands and the
administrative commands reach the backends without a check. Where there is a check, it asks for the
databases that its walk carries along, and the queries must not touch others.
-/

namespace Radon.Proxy

/-- The administrative commands that move, drop or settle rows on the backends. -/
def RadonAction.actsOnRows : RadonAction → Bool
  | .reshard | .rebalance | .cleanup | .xaCommit | .xaRollback => true
  | .attach | .detach | .attachList | .xaRecover => false

/-- The planner, and the databases of the user tables whose rows a query reads or writes. -/
structure TouchModel where
  plans : String → String → Statement → Except String (List String) → Prop
  streamPlans : String → String → Select → Except String (List String) → Prop
  touches : String → List String

variable (m : TouchModel) (env : Env) (ses : Session)

/-- The planner, with a user who is a super user or not. -/
def TouchModel.setting (super : Bool) : Setting := ⟨m.plans, m.streamPlans, (· = super)⟩

/-- A query is permitted when every database it touches has been checked. -/
def TouchModel.rules (super : Bool) (answers : String → Statement → Option String → Prop) : Rules where
  toSetting := m.setting super
  answers := answers
  sends q asked := ∀ d ∈ m.touches q, d ∈ asked
  admin a := a.actsOnRows = false

/-- Every query that a user who is not a super user gets sent touches only databases on which a
successful check of that user has asked for privileges. -/
def PrivilegeEnforced (query : String) (binds : Option (List (String × String))) : Prop :=
  ∀ p : Privilege, p.isSuperPriv ses.user = false →
    Safe (m.rules (p.isSuperPriv ses.user) fun db s r => r = p.check db ses.user (some s))
      (comQuery env ses query binds) ∅

/-- The queries of a statement touch only the databases that are checked before them, and the statement
is no administrative command on rows. -/
def Statement.Guarded (text : String) (s : Statement) : Prop :=
  (∀ asked q, s.Sends (m.setting false) env ses text asked q → ∀ d ∈ m.touches q, d ∈ asked) ∧
    ∀ r, s = .radon r → r.rowOk = true → r.action.actsOnRows = false

/-- When privileges are enforced: a connector's text touches no table, and the statement of any other
text is refused or guarded. -/
def PrivilegeHolds (query : String) (binds : Option (List (String × String))) : Prop :=
  env.highWater = false → if isConnectorFilter query then m.touches query = []
    else ∀ text s, prepare env query binds = .ok (text, s) → (env.readOnly && s.isWrite) = false →
      s.Guarded m env ses text

/-- One user who holds all ordinary privileges everywhere. -/
def Privilege.everywhere (user : String) : Privilege := ⟨[(user, { priv := .ordinary })]⟩

section

variable {m env ses}

theorem Privilege.everywhere_priv (user : String) : ((Privilege.everywhere user).userPriv user).priv = .ordinary := by
  simp [everywhere, userPriv]

theorem Privilege.everywhere_check {user db : String} {s : Statement} (hs : s.checkable = true) :
    (Privilege.everywhere user).check db user (some s) = none := by
  refine check_eq_none.2 fun d _ => ?_
  have hpriv := everywhere_priv user
  cases s <;> simp only [Statement.checkable, Bool.false_eq_true] at hs <;>
    simp [checkPrivilege, hpriv, PrivilegeFlags.ordinary]

theorem TouchModel.safe_dispatch_iff {answers : String → Statement → Option String → Prop}
    (hyes : (m.rules false answers).Willing) {text : String} {s : Statement} :
    Safe (m.rules false answers) (dispatch env ses text s) ∅ ↔ s.Guarded m env ses text := by
  rw [safe_dispatch hyes]
  rfl

theorem TouchModel.safe_comQuery_iff {answers : String → Statement → Option String → Prop}
    (hyes : (m.rules false answers).Willing) {query : String} {binds : Option (List (String × String))} :
    Safe (m.rules false answers) (comQuery env ses query binds) ∅ ↔ PrivilegeHolds m env ses query binds := by
  unfold PrivilegeHolds
  cases hwater : env.highWater with
  | true => simp [comQuery, hwater]
  | false =>
    cases hconn : isConnectorFilter query with
    | true =>
      rw [safe_comQuery_connector hwater hconn]
      simp [rules, List.eq_nil_iff_forall_not_mem]
    | false => grind [safe_comQuery_prepared, safe_dispatch_iff]

/-- The statements whose queries are all planned after the check in the session's database. -/
def Statement.checkedFirst : Statement → Bool
  | .delete _ | .update _ | .union _ => true
  | _ => false

/-- A statement whose planned queries touch the databases of its tables is guarded exactly if the check covers
them. -/
theorem Statement.guarded_iff_covered {text : String} {s : Statement} (hs : s.checkedFirst = true)
    (htouch : ∀ d, (∃ q, (m.setting false).Planned ses.schema text s q ∧ d ∈ m.touches q) ↔
      ∃ t ∈ s.tableRefs, t.database ses.schema = d) : s.Guarded m env ses text ↔ s.Covered ses.schema := by
  have hguarded : s.Guarded m env ses text ↔
      ∀ d, (∃ q, (m.setting false).Planned ses.schema text s q ∧ d ∈ m.touches q) → d ∈ s.examined ses.schema := by
    cases s <;> simp only [checkedFirst, Bool.false_eq_true] at hs
    all_goals
      simp only [Guarded, Sends, reduceCtorEq, false_imp_iff, implies_true, and_true, and_imp, forall_asked]
      exact ⟨fun h d hex => hex.elim fun q hq => h q hq.1 d hq.2, fun h q hq d hd => h d ⟨q, hq, hd⟩⟩
  have hcheckable : s.checkable ≠ false := by cases s <;> simp_all [checkedFirst, checkable]
  rw [hguarded, Covered, or_iff_right hcheckable]
  simp only [htouch, forall_exists_index, and_imp, forall_apply_eq_imp_iff₂]
  have hmem {t : TableName} (ht : t ∈ s.tableRefs) : t.database ses.schema ∈ s.examined ses.schema ↔ _ :=
    mem_examined (List.mem_of_mem_filter ht)
  constructor
  · intro h
    by_contra hcov
    obtain ⟨hall, hrest⟩ := not_or.1 hcov
    exact hall fun t ht => ((hmem ht).1 (h t ht)).resolve_right hrest
  · rintro (h | h) t ht
    · exact (hmem ht).2 (.inl (h t ht))
    · exact (hmem ht).2 (.inr h)

end

/-- Privileges are enforced for a query exactly when a connector's text touches no table and the queries
of any other text touch only databases that have been checked before. -/
theorem privilegeEnforced_iff (query : String) (binds : Option (List (String × String))) :
    PrivilegeEnforced m env ses query binds ↔ PrivilegeHolds m env ses query binds := by
  constructor
  · intro h
    have hsuper : (Privilege.everywhere ses.user).isSuperPriv ses.user = false := by
      rw [Privilege.isSuperPriv, Privilege.everywhere_priv]
      rfl
    have hyes : (m.rules false fun db s r =>
        r = (Privilege.everywhere ses.user).check db ses.user (some s)).Willing :=
      fun db s hs => (Privilege.everywhere_check hs).symm
    have hsafe := h _ hsuper
    rw [hsuper] at hsafe
    exact (m.safe_comQuery_iff hyes).1 hsafe
  · intro h p hsuper
    have hyes : (m.rules false fun _ _ _ => True).Willing := fun _ _ _ => trivial
    rw [hsuper]
    exact ((m.safe_comQuery_iff hyes).2 h).of_answers fun _ _ _ _ => trivial

/-- A proxy whose parser knows a `SELECT` and a `CHECKSUM`. -/
def uncheckedEnv : Env where
  highWater := false
  readOnly := false
  twoPC := false
  autocommitFalseIsTxn := false
  lowerCaseTableNames := false
  parse q := .ok (if q = "checksum table t" then .checksum [⟨"", "t"⟩] false
    else .select { from_ := [.table ⟨"", "t"⟩ .leaf] })
  generate _ _ := .error ""
  lowerCase s := s
  format _ := "checksum table t"
  columnsOf _ := none
  renameColumns s _ := s

/-- A table with one part, which every query of the three users touches. -/
def onePartModel : TouchModel where
  plans _ _ _ r := r = .ok ["checksum table db.t_0000"]
  streamPlans _ _ _ r := r = .ok ["select * from db.t_0000 as t"]
  touches _ := ["db"]

/-- A user without any privilege reads a table behind a comment, as a stream and by a checksum. -/
theorem not_privilegeEnforced_unchecked :
    let stream : Session := ⟨"db", "u", true, false⟩
    let plain : Session := ⟨"db", "u", false, false⟩
    ¬ PrivilegeEnforced onePartModel uncheckedEnv plain "/*x*/select * from db.t_0000" none ∧
      ¬ PrivilegeEnforced onePartModel uncheckedEnv stream "select * from t" none ∧
      ¬ PrivilegeEnforced onePartModel uncheckedEnv plain "checksum table t" none := by
  intro stream plain
  have hnone : ∀ {q : String}, ¬ (∀ d ∈ onePartModel.touches q, d ∈ (∅ : Set String)) :=
    fun h => h "db" (List.mem_singleton_self _)
  refine ⟨fun h => ?_, fun h => ?_, fun h => ?_⟩
  · exact hnone ((safe_comQuery_connector rfl (by decide)).1 (h ⟨[]⟩ rfl))
  · have hdispatch := (safe_comQuery_prepared rfl (by decide)).1 (h ⟨[]⟩ rfl) "select * from t" _ rfl rfl
    exact hnone (safe_executeStreamFetch.1 hdispatch _ _ rfl (List.mem_singleton_self _))
  · have hdispatch := (safe_comQuery_prepared rfl (by decide)).1 (h ⟨[]⟩ rfl) "checksum table t" _ rfl rfl
    exact hnone (safe_handleChecksumTable.1 hdispatch _
      ⟨rfl, _, List.mem_singleton_self _, _, rfl, List.mem_singleton_self _⟩)

end Radon.Proxy
