import Radon.MySql.StringLiteral

/-!
# Authentication

`AuthCheck` reads the stored hash of a user from `mysql.user` with a query into which the user name
is spliced, and compares it with the hash that the client's response leads to. The response is
undone byte by byte into a buffer of twenty bytes, with the index running over the response.

The name that the backend looks for is the value of the string literal that the splice makes, without
trailing spaces. The check is sound for a user name and a response exactly when that value is the user
name itself and the response is twenty bytes long.
-/

namespace Radon.Proxy

open MySql List

/-- `sha1`: every digest has twenty bytes. -/
structure Hash where
  sum : Bytes → Bytes
  length_sum : ∀ m, (sum m).length = 20

/-- No two of the messages have the same digest. -/
def Hash.CollisionFree (h : Hash) (messages : List Bytes) : Prop :=
  ∀ m ∈ messages, ∀ m' ∈ messages, h.sum m = h.sum m' → m = m'

instance (h : Hash) (messages : List Bytes) : Decidable (h.CollisionFree messages) :=
  inferInstanceAs (Decidable (∀ m ∈ messages, ∀ m' ∈ messages, h.sum m = h.sum m' → m = m'))

/-- The parts of `driver.Session` that the check reads. -/
structure AuthSession where
  host : Option String
  user : Bytes
  salt : Bytes
  scramble : Bytes

/-- `localUserLogin`. -/
def AuthSession.localUserLogin (s : AuthSession) : Bool :=
  s.host = some "127.0.0.1" && s.user = bytes "root"

/-- `proxy.serverVersion`. -/
structure ServerVersion where
  major : ℕ
  minor : ℕ
  patch : ℕ

/-- `serverVersion.atLeast`. -/
def ServerVersion.atLeast (v compare : ServerVersion) : Bool :=
  v.major > compare.major || (v.major = compare.major && v.minor > compare.minor) ||
    (v.major = compare.major && v.minor = compare.minor && v.patch ≥ compare.patch)

/-- `authenticationMySQLVersion`. -/
def authenticationMySQLVersion : ServerVersion := ⟨5, 7, 0⟩

/-- The query up to the user name. -/
def authPrefix (version : ServerVersion) : Bytes :=
  if version.atLeast authenticationMySQLVersion then
    bytes "select authentication_string from mysql.user where user='"
  else bytes "select password as authentication_string from mysql.user where user='"

/-- The query of `AuthCheck`. -/
def authQuery (version : ServerVersion) (user : Bytes) : Bytes :=
  authPrefix version ++ (user ++ [quote])

/-- The value of a hexadecimal digit. -/
def hexVal (c : UInt8) : Option UInt8 :=
  if 48 ≤ c ∧ c ≤ 57 then some (c - 48)
  else if 97 ≤ c ∧ c ≤ 102 then some (c - 87)
  else if 65 ≤ c ∧ c ≤ 70 then some (c - 55)
  else none

/-- `hex.DecodeString`. -/
def hexDecode : Bytes → Option Bytes
  | [] => some []
  | [_] => none
  | a :: b :: text =>
    match hexVal a, hexVal b, hexDecode text with
    | some x, some y, some rest => some ((x * 16 + y) :: rest)
    | _, _, _ => none

/-- The hash stored in `mysql.user.authentication_string`. -/
def storedHash (auth : Bytes) : Option Bytes :=
  match auth with
  | 42 :: text => hexDecode text -- the asterisk is trimmed
  | text => hexDecode text

/-- The loop over the response: the bytes that are written into a buffer with room for some more, and
`none` when an index is out of range. -/
def unscramble : Bytes → Bytes → ℕ → Option Bytes
  | [], _, room => some (List.replicate room 0)
  | r :: resp, w :: want, room + 1 => (unscramble resp want room).map ((r ^^^ w) :: ·)
  | _ :: _, _, _ => none

/-- What `AuthCheck` ends with. -/
inductive AuthResult
  | ok
  | denied
  | panic
deriving DecidableEq

/-- The comparison of `AuthCheck` for the string found in the table, with the messages it hashes. -/
def compareHash (h : Hash) (salt resp auth : Bytes) : AuthResult × List Bytes :=
  match storedHash auth with
  | none => (.denied, [])
  | some wantStage2 =>
    let want := h.sum (salt ++ wantStage2)
    match unscramble resp want 20 with
    | none => (.panic, [salt ++ wantStage2])
    | some gotStage1 =>
      let gotStage2 := h.sum gotStage1
      let got := h.sum (salt ++ gotStage2)
      (if want = got then .ok else .denied, [salt ++ wantStage2, gotStage1, salt ++ gotStage2])

/-- A row of `mysql.user`; the user column is read without trailing spaces. -/
structure UserRow where
  user : Bytes
  auth : Bytes
  trimmed : trimEnd user = user

/-- A backend: what it answers to a query, where a query with one literal as the user name selects the
rows that compare equal to the value of the literal. -/
structure AuthBackend where
  users : List UserRow
  execute : Bytes → Except String (List Bytes)
  literal_rows : ∀ version body v rows, literal body = some v →
    execute (authQuery version body) = .ok rows →
    rows = (users.filter fun row => row.user = trimEnd v).map UserRow.auth

/-- `Spanner.AuthCheck`, with the messages it hashes. -/
def authCheck (h : Hash) (version : ServerVersion) (b : AuthBackend) (s : AuthSession) :
    AuthResult × List Bytes :=
  if s.localUserLogin then (.ok, [])
  else
    match b.execute (authQuery version s.user) with
    | .error _ => (.denied, [])
    | .ok [] => (.denied, [])
    | .ok (auth :: _) => compareHash h s.salt s.scramble auth

/-! ## The scramble -/

/-- Bytewise exclusive or. -/
def xorBytes (a b : Bytes) : Bytes := List.zipWith (· ^^^ ·) a b

/-- The response of the native password method to a salt. -/
def nativeScramble (h : Hash) (salt password : Bytes) : Bytes :=
  xorBytes (h.sum password) (h.sum (salt ++ h.sum (h.sum password)))

theorem xorBytes_xorBytes {a b : Bytes} (h : a.length ≤ b.length) : xorBytes (xorBytes a b) b = a := by
  induction a generalizing b with
  | nil => rfl
  | cons x a ih =>
    cases b with
    | nil => exact absurd h (by simp)
    | cons y b =>
      have hxy : x ^^^ y ^^^ y = x := by rw [UInt8.xor_assoc, UInt8.xor_self, UInt8.xor_zero]
      simp only [xorBytes, zipWith_cons_cons, hxy, List.cons.injEq, true_and]
      exact ih (Nat.le_of_succ_le_succ h)

variable {resp user : Bytes}

/-- The loop succeeds exactly for responses that fit into the buffer. -/
theorem unscramble_eq {want : Bytes} {room : ℕ} (hroom : resp.length ≤ room) (hwant : resp.length ≤ want.length)
    : unscramble resp want room = some (xorBytes resp want ++ List.replicate (room - resp.length) 0) := by
  induction resp generalizing want room with
  | nil => simp [unscramble, xorBytes]
  | cons r resp ih =>
    cases want with
    | nil => exact absurd hwant (by simp)
    | cons w want =>
      cases room with
      | zero => exact absurd hroom (by simp)
      | succ room =>
        rw [unscramble, ih (Nat.le_of_succ_le_succ hroom) (Nat.le_of_succ_le_succ hwant)]
        simp [xorBytes]

theorem unscramble_eq_none {want : Bytes} {room : ℕ} (h : room < resp.length) : unscramble resp want room = none := by
  induction resp generalizing want room with
  | nil => exact absurd h (by simp)
  | cons r resp ih =>
    cases want with
    | nil => simp [unscramble]
    | cons w want =>
      cases room with
      | zero => simp [unscramble]
      | succ room =>
        rw [unscramble, ih (Nat.lt_of_succ_lt_succ h)]
        rfl

/-! ## Soundness -/

/-- A response that a row of the table justifies: it is made from a digest whose hash the row stores,
and this digest is that of the row's password. -/
def Justified (h : Hash) (salt user resp : Bytes) (users : List UserRow) : Prop :=
  ∃ row ∈ users, row.user = user ∧ ∃ stage1, stage1.length = 20 ∧
    storedHash row.auth = some (h.sum stage1) ∧
    resp = xorBytes stage1 (h.sum (salt ++ h.sum stage1)) ∧
    ∀ password, storedHash row.auth = some (h.sum (h.sum password)) →
      h.CollisionFree [stage1, h.sum password] → resp = nativeScramble h salt password

/-- The check neither panics nor lets an unjustified response pass. -/
def AuthSound (user resp : Bytes) : Prop :=
  ∀ (h : Hash) (version : ServerVersion) (b : AuthBackend) (host : Option String) (salt : Bytes),
    let s : AuthSession := ⟨host, user, salt, resp⟩
    s.localUserLogin = false → h.CollisionFree (authCheck h version b s).2 →
      (authCheck h version b s).1 ≠ .panic ∧
      ((authCheck h version b s).1 = .ok → Justified h salt user resp b.users)

theorem compareHash_ok {h : Hash} {salt auth : Bytes} (hlen : resp.length = 20)
    (hfree : h.CollisionFree (compareHash h salt resp auth).2) (hok : (compareHash h salt resp auth).1 = .ok)
    : ∃ stage1, stage1.length = 20 ∧ storedHash auth = some (h.sum stage1) ∧
      resp = xorBytes stage1 (h.sum (salt ++ h.sum stage1)) := by
  unfold compareHash at hfree hok
  split at hok
  · cases hok
  rename_i stage2 hstored
  simp only [hstored] at hfree
  have hwant := h.length_sum (salt ++ stage2)
  have hloop : unscramble resp (h.sum (salt ++ stage2)) 20 = _ :=
    unscramble_eq hlen.le (hlen.trans hwant.symm).le
  rw [hlen, Nat.sub_self, replicate_zero, append_nil] at hloop
  simp only [hloop] at hfree hok
  split at hok
  · rename_i heq
    have hsame := hfree _ mem_cons_self _
      (mem_cons_of_mem _ (mem_cons_of_mem _ (mem_singleton_self _))) heq
    have hstage2 := append_cancel_left hsame
    refine ⟨_, ?_, hstored.trans (congrArg some hstage2), ?_⟩
    · simp [xorBytes, hlen, hwant]
    · grind [xorBytes_xorBytes]
  · cases hok

theorem compareHash_no_panic {h : Hash} {salt auth : Bytes} (hlen : resp.length ≤ 20) :
    (compareHash h salt resp auth).1 ≠ .panic := by grind [Hash.length_sum, unscramble_eq, compareHash]

theorem authSound_of_literal {v : Bytes} (hlit : literal user = some v)
    (hv : trimEnd v = user) (hlen : resp.length = 20) : AuthSound user resp := by
  intro h version b host salt s hremote hfree
  have hrows := fun rows => b.literal_rows version user v rows hlit
  simp only [authCheck, hremote, Bool.false_eq_true, if_false] at hfree ⊢
  cases hexec : b.execute (authQuery version user) with
  | error e => simp
  | ok rows =>
    have hrows := hrows rows hexec
    cases rows with
    | nil => simp
    | cons auth rest =>
      simp only [s, hexec] at hfree ⊢
      refine ⟨compareHash_no_panic hlen.le, fun hok => ?_⟩
      obtain ⟨row, hmem, hauth⟩ : ∃ row ∈ b.users.filter fun row => row.user = trimEnd v,
          row.auth = auth := mem_map.1 (hrows ▸ mem_cons_self)
      obtain ⟨hrow, huser⟩ := mem_filter.1 hmem
      obtain ⟨stage1, hlen1, hstored, hresp⟩ := compareHash_ok hlen hfree hok
      rw [← hauth] at hstored
      refine ⟨row, hrow, (of_decide_eq_true huser).trans hv, stage1, hlen1, hstored, hresp, ?_⟩
      grind [Hash.CollisionFree, nativeScramble]

/-! ## Responses and names that the check does not stand up to -/

/-- A digest that differs from a given one. -/
def otherDigest (d : Bytes) : Bytes :=
  if d = List.replicate 20 0 then List.replicate 20 1 else List.replicate 20 0

theorem otherDigest_ne (d : Bytes) : otherDigest d ≠ d := by grind [otherDigest]

/-- The stored form of `otherDigest d`. -/
def otherAuth (d : Bytes) : Bytes :=
  if d = List.replicate 20 0 then 42 :: (List.replicate 20 [48, 49]).flatten
  else 42 :: (List.replicate 20 [48, 48]).flatten

theorem storedHash_otherAuth (d : Bytes) : storedHash (otherAuth d) = some (otherDigest d) := by
  unfold otherAuth otherDigest
  split <;> decide

/-- A hash under which a response of at most twenty bytes undoes to zeros. -/
def weakHash (resp : Bytes) (hlen : resp.length ≤ 20) : Hash where
  sum m :=
    let want := resp ++ List.replicate (20 - resp.length) 0
    if m = List.replicate 20 0 then otherDigest want else want
  length_sum m := by
    have hwant : (resp ++ List.replicate (20 - resp.length) 0).length = 20 := by
      simp only [List.length_append, List.length_replicate]
      omega
    simp only
    split
    · unfold otherDigest
      split <;> rfl
    · exact hwant

theorem xorBytes_self_append (resp rest : Bytes) : xorBytes resp (resp ++ rest) = List.replicate resp.length 0 := by
  induction resp with
  | nil => rfl
  | cons r resp ih =>
    simp only [xorBytes, cons_append, zipWith_cons_cons, UInt8.xor_self, length_cons,
      replicate_succ, List.cons.injEq, true_and]
    exact ih

/-- The string and the hash that let a response of at most twenty bytes pass. -/
theorem compareHash_weakHash (hlen : resp.length ≤ 20) :
    let want := resp ++ List.replicate (20 - resp.length) 0
    compareHash (weakHash resp hlen) [0] resp (otherAuth want) =
      (.ok, [0 :: otherDigest want, List.replicate 20 0, 0 :: otherDigest want]) ∧
    (weakHash resp hlen).CollisionFree
      [0 :: otherDigest want, List.replicate 20 0, 0 :: otherDigest want] := by
  intro want
  have hdigest : (otherDigest want).length = 20 := by
    unfold otherDigest
    split <;> rfl
  have hne : 0 :: otherDigest want ≠ List.replicate 20 0 := by grind
  have hzero : (weakHash resp hlen).sum (List.replicate 20 0) = otherDigest want := by
    simp [weakHash, want]
  have hsalted : (weakHash resp hlen).sum (0 :: otherDigest want) = want := by
    simp only [weakHash, if_neg hne, want]
  have hloop : unscramble resp want 20 = some (List.replicate 20 0) := by
    rw [unscramble_eq hlen (by simp [want]), xorBytes_self_append, ← replicate_add]
    congr
    omega
  constructor
  · grind [storedHash_otherAuth, compareHash]
  · have hdiff : otherDigest want ≠ want := otherDigest_ne want
    intro m hm m' hm' heq
    grind

/-- The text behind the opening quote of a query of `AuthCheck`. -/
def afterQuote (text : Bytes) : Option Bytes :=
  let new := bytes "select authentication_string from mysql.user where user='"
  let old := bytes "select password as authentication_string from mysql.user where user='"
  if text.take new.length = new then some (text.drop new.length)
  else if text.take old.length = old then some (text.drop old.length)
  else none

theorem afterQuote_authQuery (version : ServerVersion) (body : Bytes) :
    afterQuote (authQuery version body) = some (body ++ [quote]) := by
  unfold afterQuote authQuery authPrefix
  split
  · simp
  · rfl

/-- A backend that reads a query with one literal, and answers other queries in some way. -/
def AuthBackend.of (users : List UserRow) (other : Bytes → Except String (List Bytes)) :
    AuthBackend where
  users := users
  execute text :=
    match (afterQuote text).bind scanLiteral with
    | some (v, []) => .ok ((users.filter fun row => row.user = trimEnd v).map UserRow.auth)
    | _ => other text
  literal_rows version body v rows hlit hexec := by
    rw [afterQuote_authQuery, Option.bind_some, scanLiteral_of_literal hlit] at hexec
    exact (Except.ok.inj hexec).symm

theorem AuthBackend.of_execute {users : List UserRow} {other : Bytes → Except String (List Bytes)}
    (version : ServerVersion) {v : Bytes} (hlit : literal user = some v) : (AuthBackend.of users other).execute
    (authQuery version user) = .ok ((users.filter fun row => row.user = trimEnd v).map UserRow.auth) := by
  simp only [of, afterQuote_authQuery, Option.bind_some, scanLiteral_of_literal hlit]

theorem AuthBackend.of_execute_other {users : List UserRow} {other : Bytes → Except String (List Bytes)}
    (version : ServerVersion) (hlit : literal user = none) : (AuthBackend.of users other).execute
    (authQuery version user) = other (authQuery version user) := by
  simp only [of, afterQuote_authQuery, Option.bind_some]
  split
  · rename_i heq
    simp [literal, heq] at hlit
  · rfl

/-- A backend that finds one string for the user puts a sound check to the test: the response fits,
and the table holds the user. -/
theorem AuthSound.justified (hsound : AuthSound user resp) (b : Bytes → AuthBackend)
    (hexec : ∀ auth, (b auth).execute (authQuery authenticationMySQLVersion user) = .ok [auth]) :
    resp.length ≤ 20 ∧ ∃ h auth, Justified h [0] user resp (b auth).users := by
  have hrun : ∀ h auth, authCheck h authenticationMySQLVersion (b auth) ⟨none, user, [0], resp⟩ =
      compareHash h [0] resp auth := by
    intro h auth
    simp [authCheck, AuthSession.localUserLogin, hexec]
  by_cases hlen : resp.length ≤ 20
  · refine ⟨hlen, weakHash resp hlen, otherAuth (resp ++ List.replicate (20 - resp.length) 0), ?_⟩
    obtain ⟨hcompare, hfree⟩ := compareHash_weakHash hlen
    obtain ⟨-, hok⟩ := hsound (weakHash resp hlen) authenticationMySQLVersion
      (b (otherAuth (resp ++ List.replicate (20 - resp.length) 0))) none [0]
      (by simp [AuthSession.localUserLogin]) (by rw [hrun, hcompare]; exact hfree)
    exact hok (by rw [hrun, hcompare])
  · exfalso
    have hcompare : compareHash (weakHash [] (Nat.zero_le _)) [0] resp (otherAuth []) =
        (.panic, [0 :: otherDigest []]) := by
      simp [compareHash, storedHash_otherAuth, unscramble_eq_none (Nat.lt_of_not_le hlen)]
    obtain ⟨hpanic, -⟩ := hsound (weakHash [] (Nat.zero_le _)) authenticationMySQLVersion
      (b (otherAuth [])) none [0] (by simp [AuthSession.localUserLogin]) (by
        rw [hrun, hcompare]
        intro m hm m' hm' _
        rw [mem_singleton.1 hm, mem_singleton.1 hm'])
    exact hpanic (by rw [hrun, hcompare])

/-- The check is sound for a user name and a response exactly when the spliced name is one literal
whose value compares equal to the name only, and the response has the length of a digest. -/
theorem authSound_iff (user resp : Bytes) :
    AuthSound user resp ↔ (literal user).map trimEnd = some user ∧ resp.length = 20 := by
  constructor
  · intro hsound
    cases hlit : literal user with
    | none =>
      obtain ⟨-, h, auth, row, hrow, -⟩ := hsound.justified
        (fun auth => .of [] fun _ => .ok [auth]) fun auth => AuthBackend.of_execute_other _ hlit
      cases hrow
    | some v =>
      obtain ⟨-, h, auth, row, hrow, huser, stage1, hlen1, -, hresp, -⟩ := hsound.justified
        (fun auth => .of [⟨trimEnd v, auth, trimEnd_trimEnd v⟩] fun _ => .error "")
        fun auth => by rw [AuthBackend.of_execute _ hlit]; simp
      cases List.mem_singleton.1 hrow
      refine ⟨congrArg some huser, ?_⟩
      rw [hresp, xorBytes, List.length_zipWith, hlen1, h.length_sum]
      rfl
  · rintro ⟨hname, hlen⟩
    obtain ⟨v, hlit, hv⟩ := Option.map_eq_some_iff.1 hname
    exact authSound_of_literal hlit hv hlen

/-- The users that a condition of the form `user='a' or user='b'` asks for, read after its first
quote. -/
def orUsers : ℕ → Bytes → Option (List Bytes)
  | 0, _ => none
  | fuel + 1, text =>
    match scanLiteral text with
    | none => none
    | some (v, []) => some [v]
    | some (v, rest) =>
      let separator := bytes " or user='"
      if rest.take separator.length = separator then
        (orUsers fuel (rest.drop separator.length)).map (v :: ·)
      else none

/-- A backend that evaluates such conditions. -/
def orBackend (users : List UserRow) : AuthBackend :=
  .of users fun text =>
    match (afterQuote text).bind (orUsers 8) with
    | some vs => .ok ((users.filter fun row => row.user ∈ vs.map trimEnd).map UserRow.auth)
    | none => .error "You have an error in your SQL syntax"

/-- The only user of a table is `bob`, whose hash is that of twenty zeros. -/
def bobOnly : List UserRow := [⟨bytes "bob", otherAuth (List.replicate 20 7), by decide⟩]

/-- The name `x' or user='bob` logs in with the response of `bob`, and a response with one byte too
many brings the check down. -/
theorem authCheck_spliced_name :
    let h := weakHash (List.replicate 20 7) (by decide)
    let spliced : AuthSession :=
      ⟨some "10.0.0.1", bytes "x' or user='bob", [0], List.replicate 20 7⟩
    let long : AuthSession := ⟨some "10.0.0.1", bytes "bob", [0], List.replicate 21 7⟩
    ((authCheck h authenticationMySQLVersion (orBackend bobOnly) spliced).1 = .ok ∧
      h.CollisionFree (authCheck h authenticationMySQLVersion (orBackend bobOnly) spliced).2 ∧
      ∀ row ∈ (orBackend bobOnly).users, row.user ≠ spliced.user) ∧
    (authCheck h authenticationMySQLVersion (orBackend bobOnly) long).1 = .panic := by
  decide +kernel

end Radon.Proxy
