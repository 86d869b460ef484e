import SqlGatekeeper.Services.RedisGatekeeper

/-!
# Connections of MySQL datasources

* `resolvePassword`, `buildRuntimeDsn`: the URL that an engine is made for.
* `buildRuntimeDsn_inj`: the URL tells datasources apart if their parts have no separators.
-/

namespace SqlGatekeeper

open Py Store

namespace DatasourceRuntime

/-- `_resolve_password`. -/
def resolvePassword (secretRef : Str) : Str :=
  if startsWith secretRef "local:" then secretRef.drop "local:".length else secretRef

/-- The URL of a user with a password on a database of a server. -/
def mysqlUrl (username password host : Str) (port : Int) (databaseName : Str) : Str :=
  "mysql+pymysql://" ++ (username ++ ':' :: (password ++ '@' :: (host ++ ':' ::
    (intText port ++ '/' :: databaseName))))

/-- `build_runtime_dsn`. -/
def buildRuntimeDsn (datasource : DatasourceInstance) : Str :=
  mysqlUrl datasource.username (resolvePassword datasource.passwordSecretRef) datasource.host
    datasource.port datasource.databaseName

/-- A password that is written into a reference is read from it again, whatever it contains. -/
theorem resolvePassword_local (password : Str) : resolvePassword
    ("local:" ++ password) = password := by
  have hprefix : startsWith ("local:".toList ++ password) "local:" = true :=
    List.isPrefixOf_iff_prefix.2 (List.prefix_append _ _)
  unfold resolvePassword
  rw [if_pos hprefix]
  exact List.drop_left' rfl

/-- The parts before the first separator are told apart. -/
theorem append_cons_inj {c : Char} {a a' b b' : Str} (ha : c ∉ a) (ha' : c ∉ a')
    (h : a ++ c :: b = a' ++ c :: b') : a = a' ∧ b = b' := by
  induction a generalizing a' with
  | nil =>
    cases a' with
    | nil => exact ⟨rfl, (List.cons.inj h).2⟩
    | cons x xs =>
      have hx : c = x := (List.cons.inj h).1
      exact absurd (hx ▸ List.mem_cons_self) ha'
  | cons x xs ih =>
    cases a' with
    | nil =>
      have hx : x = c := (List.cons.inj h).1
      exact absurd (hx ▸ List.mem_cons_self) ha
    | cons y ys =>
      obtain ⟨rfl, htail⟩ := List.cons.inj h
      obtain ⟨rfl, hb⟩ := ih (fun hc => ha (List.mem_cons_of_mem _ hc))
        (fun hc => ha' (List.mem_cons_of_mem _ hc)) htail
      exact ⟨rfl, hb⟩

theorem slash_notMem_intText (k : Int) : '/' ∉ intText k := by
  have hdigits : ∀ n : Nat, '/' ∉ natText n :=
    fun n h => absurd (natText_isDigit _ h) (by decide)
  unfold intText
  by_cases hk : k < 0
  · rw [if_pos hk, List.mem_cons]
    rintro (h | h)
    · exact absurd h (by decide)
    · exact hdigits _ h
  · rw [if_neg hk]
    exact hdigits _

/-- The parts of the URL have no separators in them. -/
structure Separable (datasource : DatasourceInstance) : Prop where
  username : ':' ∉ datasource.username
  password : '@' ∉ resolvePassword datasource.passwordSecretRef
  host : ':' ∉ datasource.host

/-- Datasources with the same URL are the same connection, if their parts have no separators. -/
theorem buildRuntimeDsn_inj {d d' : DatasourceInstance} (hd : Separable d) (hd' : Separable d')
    (h : buildRuntimeDsn d = buildRuntimeDsn d') :
    d.username = d'.username ∧
      resolvePassword d.passwordSecretRef = resolvePassword d'.passwordSecretRef ∧
      d.host = d'.host ∧ d.port = d'.port ∧ d.databaseName = d'.databaseName := by
  unfold buildRuntimeDsn mysqlUrl at h
  obtain ⟨husername, h⟩ := append_cons_inj hd.username hd'.username (List.append_cancel_left h)
  obtain ⟨hpassword, h⟩ := append_cons_inj hd.password hd'.password h
  obtain ⟨hhost, h⟩ := append_cons_inj hd.host hd'.host h
  obtain ⟨hport, hname⟩ := append_cons_inj (slash_notMem_intText _) (slash_notMem_intText _) h
  exact ⟨husername, hpassword, hhost, intText_injective hport, hname⟩

end DatasourceRuntime

end SqlGatekeeper
