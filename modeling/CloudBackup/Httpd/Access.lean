import CloudBackup.Httpd.PutConfig
import Mathlib.Data.Multiset.Filter

/-!
Who may do what over HTTP. A request of the API goes through `BasicAuth` and `CheckAccess`
before its handler runs. Both layers take a copy of the configuration of their own, decide on
it, and only then call what comes next. The configuration may be replaced at any point in
between by the handler of another request: the users that the second layer sees need not be
those that the first one has seen, nor those that there are when the handler runs.

Requests are the threads of a pool. The handlers of `PUT /config` and `PUT /config/backup` go on
as in `PutConfig`; of the others it is only known that they run. Nothing but these two
replaces the configuration of a daemon that runs.
-/

namespace CloudBackup.Httpd.Access

open Database Config Casing Checks Threads

/-! ### Routes -/

inductive Endpoint
  | handlerRoot
  | serveFiles (dir : Str)
  | handlerGETtlSwaggerJson
  | handlerGETtlSwaggerYaml
  | handlerGetConfig
  | handlerPutConfig
  | handlerPutConfigBackup
  | handlerPostBackupStart
  | handlerPostBackupStop
  | handlerGetBackupList
  | handlerPostBackupDryRun
  | handlerPostBackupWatch
  | handlerPostBackupTargetTest
  | handlerPostRestoreStart
  | handlerPostRestoreStop
  | handlerPostRestoreResume
  | handlerGetRestoreList
  | handlerPostRestoreWatch
  | handlerPostNotificationTest
  | handlerPostReportBackupList
  | handlerPostReportBackupShow
  | handlerPostReportBackupFileList
  | handlerPostReportRestoreList
  | handlerPostReportRestoreShow
  | handlerVersion
  deriving DecidableEq, Repr

/-- A request, with the configuration or the backup that its body is loaded into. -/
structure Request where
  method : Str
  path : Str
  /-- The user and the password of the header `Authorization`. -/
  credentials : Option (Str × Str) := none
  newConfig : Option CfgTemplate := none
  newConfigBackup : Option ConfigBackup := none

structure Route where
  method : Str
  path : Str
  handler : Endpoint
  /-- The handler is behind `BasicAuth` and `CheckAccess`. -/
  wrapped : Bool := true
  deriving DecidableEq

def get : Str := "GET".toList

def post : Str := "POST".toList

/-- `ApiPrefix` in front of it. -/
def api (path : String) : Str := "/api/v1".toList ++ path.toList

def routes : List Route :=
  [⟨get, "/".toList, .handlerRoot, false⟩,
    ⟨get, "/docs/".toList, .serveFiles "docs".toList, false⟩,
    ⟨get, "/docs_api/".toList, .serveFiles "docs_api".toList, false⟩,
    ⟨get, "/ui/".toList, .serveFiles "ui".toList, false⟩,
    ⟨get, "/swagger.json".toList, .handlerGETtlSwaggerJson, false⟩,
    ⟨get, "/swagger.yaml".toList, .handlerGETtlSwaggerYaml, false⟩,
    ⟨get, api "/config", .handlerGetConfig, true⟩,
    ⟨post, api "/config", .handlerPutConfig, true⟩,
    ⟨post, api "/config/backup", .handlerPutConfigBackup, true⟩,
    ⟨post, api "/backup/start", .handlerPostBackupStart, true⟩,
    ⟨post, api "/backup/stop", .handlerPostBackupStop, true⟩,
    ⟨get, api "/backup/list", .handlerGetBackupList, true⟩,
    ⟨post, api "/backup/dryrun", .handlerPostBackupDryRun, true⟩,
    ⟨post, api "/backup/watch", .handlerPostBackupWatch, true⟩,
    ⟨post, api "/backup/target/test", .handlerPostBackupTargetTest, true⟩,
    ⟨post, api "/restore/start", .handlerPostRestoreStart, true⟩,
    ⟨post, api "/restore/stop", .handlerPostRestoreStop, true⟩,
    ⟨post, api "/restore/resume", .handlerPostRestoreResume, true⟩,
    ⟨get, api "/restore/list", .handlerGetRestoreList, true⟩,
    ⟨post, api "/restore/watch", .handlerPostRestoreWatch, true⟩,
    ⟨post, api "/report/notification/test", .handlerPostNotificationTest, true⟩,
    ⟨post, api "/report/backup/list", .handlerPostReportBackupList, true⟩,
    ⟨post, api "/report/backup/show", .handlerPostReportBackupShow, true⟩,
    ⟨post, api "/report/backup/file/list", .handlerPostReportBackupFileList, true⟩,
    ⟨post, api "/report/restore/list", .handlerPostReportRestoreList, true⟩,
    ⟨post, api "/report/restore/show", .handlerPostReportRestoreShow, true⟩,
    ⟨get, api "/report/version", .handlerVersion, true⟩]

def Route.matches (x : Route) (method path : Str) : Bool :=
  x.method = method && match x.handler with
    | .serveFiles _ => x.path.isPrefixOf path
    | _ => x.path = path

/-- The route that the router takes. It redirects some of the paths that have none, and no
handler runs then. -/
def route (r : Request) : Option Route := routes.find? fun x => x.matches r.method r.path

def readAccess (method : Str) : List Str :=
  if method = get then [api "/config", api "/backup/list", api "/restore/list"]
  else if method = post then
    [api "/backup/dryrun", api "/backup/watch", api "/restore/watch", api "/report/backup/list",
      api "/report/restore/list"]
  else []

def readers : List Endpoint :=
  [.handlerGetConfig, .handlerGetBackupList, .handlerGetRestoreList, .handlerPostBackupDryRun,
    .handlerPostBackupWatch, .handlerPostRestoreWatch, .handlerPostReportBackupList,
    .handlerPostReportRestoreList]

/-! ### The two layers -/

structure Refusal where
  httpCode : ℕ
  code : Str
  message : Str
  wwwAuthenticate : Option Str := none
  deriving DecidableEq

def unauthorized (message : String) : Refusal :=
  { httpCode := 401
    code := "unauthorized".toList
    message := message.toList
    wwwAuthenticate := some "Basic realm=Restricted".toList }

def forbidden (httpUser : Str) (r : Request) : Refusal :=
  { httpCode := 403
    code := "access denied".toList
    message := "User '".toList ++ httpUser ++ "' does not have access to '".toList ++ r.path ++
      "' using http method '".toList ++ r.method ++
      ("'. If access is needed then please request 'write' privileges from your systems " ++
        "admininistrator").toList }

section

variable (checkPasswordHash : Str → Str → Bool) (u : Tables)

def basicAuth (users : List ConfigUser) : Option (Str × Str) → Except Refusal Unit
  | none => .error (unauthorized "Basic authentication is required. Please provide an username and password")
  | some (httpUser, httpPassword) =>
      if httpUser = [] then
        .error (unauthorized "Basic authentication is required. Please provide an username and password")
      else if users = [] then
        .error (unauthorized ("The server configuration doesn't have a 'User' section defined so http(s) " ++
          "authentication will fail"))
      else if users.any fun user => user.name = httpUser && checkPasswordHash httpPassword user.pass then .ok ()
      else .error (unauthorized "Invalid username or password")

def checkAccess (users : List ConfigUser) (r : Request) : Except Refusal Unit :=
  match r.credentials with
  | none => .error
      { httpCode := 500
        code := "internal server error".toList
        message := "CheckAccess() called for an unauthenticated session for path '".toList ++ r.path ++
          "' and HTTP method '".toList ++ r.method ++ "'. Please submit a bug report".toList }
  | some (httpUser, _) =>
      if users.any fun user => user.name = httpUser &&
          (toLower u user.access = "write".toList || (readAccess r.method).any (r.path = ·)) then .ok ()
      else .error (forbidden httpUser r)

end

/-! ### Sessions -/

inductive Session
  | arrived (r : Request)
  /-- No handler runs: there is no route. -/
  | unrouted (r : Request)
  /-- The handler is not behind the two layers. -/
  | unwrapped (r : Request) (e : Endpoint)
  /-- The first layer has its copy of the users. -/
  | authenticating (r : Request) (e : Endpoint) (users : List ConfigUser)
  /-- Between the two layers. -/
  | authenticated (r : Request) (e : Endpoint)
  /-- The second layer has its copy of the users. -/
  | checking (r : Request) (e : Endpoint) (users : List ConfigUser)
  /-- The second layer has found access, and has not yet called the handler. -/
  | granted (r : Request) (e : Endpoint)
  | refused (r : Request) (e : Refusal)
  /-- The handler runs. -/
  | serving (r : Request) (e : Endpoint)
  | updating (r : Request) (e : Endpoint) (t : Handler)

/-- The handler is called. One that replaces the configuration loads the new one first. -/
def Endpoint.start (r : Request) : Endpoint → Session
  | .handlerPutConfig =>
      .updating r .handlerPutConfig (match r.newConfig with
        | some c => .put c
        | none => .replied false)
  | .handlerPutConfigBackup =>
      .updating r .handlerPutConfigBackup (match r.newConfigBackup with
        | some b => .putBackup b
        | none => .replied false)
  | e => .serving r e

/-- The handler `e` has been called for `r` by the second layer. -/
def Session.Serves (t : Session) (r : Request) (e : Endpoint) : Prop :=
  t = .serving r e ∨ ∃ h, t = .updating r e h

section

variable (env : Env) (checkPasswordHash : Str → Str → Bool)

/-- The steps of a session. A layer copies the configuration as soon as nobody is saving it. -/
inductive SessionAct : Store → Session → Store → Session → Prop
  | unrouted {s r} (h : route r = none) : SessionAct s (.arrived r) s (.unrouted r)
  | unwrapped {s r x} (h : route r = some x) (hx : x.wrapped = false) :
      SessionAct s (.arrived r) s (.unwrapped r x.handler)
  | copyFirst {s r x} (h : route r = some x) (hx : x.wrapped = true) (hlock : s.locked = false) :
      SessionAct s (.arrived r) s (.authenticating r x.handler s.memory.user)
  | authenticate {s r e users} (hauth : basicAuth checkPasswordHash users r.credentials = .ok ()) :
      SessionAct s (.authenticating r e users) s (.authenticated r e)
  | reject {s r e users f} (hauth : basicAuth checkPasswordHash users r.credentials = .error f) :
      SessionAct s (.authenticating r e users) s (.refused r f)
  | copySecond {s r e} (hlock : s.locked = false) :
      SessionAct s (.authenticated r e) s (.checking r e s.memory.user)
  | grant {s r e users} (haccess : checkAccess env.tables users r = .ok ()) :
      SessionAct s (.checking r e users) s (.granted r e)
  | deny {s r e users f} (haccess : checkAccess env.tables users r = .error f) :
      SessionAct s (.checking r e users) s (.refused r f)
  | call {s r e} : SessionAct s (.granted r e) s (e.start r)
  | update {s s' r e t t'} (h : Act env s t s' t') : SessionAct s (.updating r e t) s' (.updating r e t')

end

/-! ### What the layers let through -/

def Authenticates (checkPasswordHash : Str → Str → Bool) (users : List ConfigUser) (r : Request) : Prop :=
  ∃ name pass, r.credentials = some (name, pass) ∧
    ∃ user ∈ users, user.name = name ∧ checkPasswordHash pass user.pass = true

/-- A user of the request's name may write, or there is one and reading is enough. -/
def HasAccess (u : Tables) (users : List ConfigUser) (r : Request) : Prop :=
  ∃ name pass, r.credentials = some (name, pass) ∧
    ∃ user ∈ users, user.name = name ∧ (toLower u user.access = "write".toList ∨ r.path ∈ readAccess r.method)

section

variable {checkPasswordHash : Str → Str → Bool} {u : Tables} {users : List ConfigUser} {r : Request}

theorem authenticates_of_basicAuth (h : basicAuth checkPasswordHash users r.credentials = .ok ()) :
    Authenticates checkPasswordHash users r := by
  cases hc : r.credentials with
  | none =>
      rw [hc] at h
      cases h
  | some c =>
      rw [hc, basicAuth] at h
      split at h
      · cases h
      · split at h
        · cases h
        · split at h
          · rename_i hany
            obtain ⟨user, huser, hmatch⟩ := List.any_eq_true.mp hany
            rw [Bool.and_eq_true, decide_eq_true_iff] at hmatch
            exact ⟨c.1, c.2, hc, user, huser, hmatch⟩
          · cases h

theorem hasAccess_of_checkAccess (h : checkAccess u users r = .ok ()) : HasAccess u users r := by
  cases hc : r.credentials with
  | none =>
      rw [checkAccess, hc] at h
      cases h
  | some c =>
      rw [checkAccess, hc] at h
      simp only at h
      split at h
      · rename_i hany
        obtain ⟨user, huser, hmatch⟩ := List.any_eq_true.mp hany
        simp only [Bool.and_eq_true, Bool.or_eq_true, decide_eq_true_iff, List.any_eq_true, exists_eq_right'] at hmatch
        exact ⟨c.1, c.2, hc, user, huser, hmatch⟩
      · cases h

theorem checkAccess_of_not_hasAccess {name pass : Str} (hcred : r.credentials = some (name, pass))
    (h : ¬ HasAccess u users r) : checkAccess u users r = .error (forbidden name r) := by
  cases hcheck : checkAccess u users r with
  | ok => exact absurd (hasAccess_of_checkAccess hcheck) h
  | error e =>
      rw [checkAccess, hcred] at hcheck
      simp only at hcheck
      split at hcheck
      · cases hcheck
      · exact hcheck.symm

/-- A path that may be read has a handler that reads. -/
theorem handler_mem_readers {x : Route} (hread : r.path ∈ readAccess r.method) (h : route r = some x) :
    x.handler ∈ readers := by
  have hall : ∀ method ∈ [get, post], ∀ path ∈ readAccess method,
      ∀ y ∈ routes.find? fun x => x.matches method path, y.handler ∈ readers := by
    decide
  have hmethod : r.method ∈ [get, post] := by
    unfold readAccess at hread
    split at hread
    · rename_i hget
      simp [hget]
    · split at hread
      · rename_i hpost
        simp [hpost]
      · exact absurd hread List.not_mem_nil
  exact hall r.method hmethod r.path hread x h

end

/-! ### Whoever is served has passed both layers -/

/-- A request that satisfies `ok` has just come in. -/
def IsArrival (ok : Request → Prop) (t : Session) : Prop := ∃ r, ok r ∧ t = .arrived r

/-- The route of the request leads to `e` through both layers. -/
def Routed (r : Request) (e : Endpoint) : Prop := ∃ x, route r = some x ∧ x.wrapped = true ∧ x.handler = e

theorem serves_start (r : Request) (e : Endpoint) : (e.start r).Serves r e := by
  cases e <;> first | exact .inl rfl | exact .inr ⟨_, rfl⟩

section

variable (env : Env) (checkPasswordHash : Str → Str → Bool) (ok : Request → Prop) (c₀ : CfgTemplate)

/-- What a server that is started with `c₀` comes to. All the requests satisfy `ok`. -/
def Comes : Pool Store Session → Prop :=
  Reachable (IsArrival ok) (SessionAct env checkPasswordHash) (fun _ _ => True) ⟨c₀, c₀, false⟩

def Was (P : CfgTemplate → Pool Store Session → Prop) : Pool Store Session → Prop :=
  Once (IsArrival ok) (SessionAct env checkPasswordHash) (fun _ _ => True) ⟨c₀, c₀, false⟩
    fun p => P p.shared.memory p

/-- The configuration in memory has had a user with the name and the password of the request. -/
def WasAuthenticated (r : Request) : Pool Store Session → Prop :=
  Was env checkPasswordHash ok c₀ fun c _ => Authenticates checkPasswordHash c.user r

/-- After that it has had a user of this name with access. -/
def WasAdmitted (r : Request) : Pool Store Session → Prop :=
  Was env checkPasswordHash ok c₀ fun c p =>
    HasAccess env.tables c.user r ∧ WasAuthenticated env checkPasswordHash ok c₀ r p

def SessionKnown (p : Pool Store Session) : Session → Prop
  | .authenticating r e users => Routed r e ∧ Was env checkPasswordHash ok c₀ (fun c _ => c.user = users) p
  | .authenticated r e => Routed r e ∧ WasAuthenticated env checkPasswordHash ok c₀ r p
  | .checking r e users => Routed r e ∧
      Was env checkPasswordHash ok c₀ (fun c p => c.user = users ∧ WasAuthenticated env checkPasswordHash ok c₀ r p) p
  | .granted r e => Routed r e ∧ WasAdmitted env checkPasswordHash ok c₀ r p
  | .serving r e => Routed r e ∧ WasAdmitted env checkPasswordHash ok c₀ r p
  | .updating r e _ => Routed r e ∧ WasAdmitted env checkPasswordHash ok c₀ r p
  | _ => True

end

section

variable {env : Env} {checkPasswordHash : Str → Str → Bool} {ok : Request → Prop} {c₀ : CfgTemplate}

theorem sessionKnown_of_serves {p : Pool Store Session} {t : Session} {r : Request} {e : Endpoint}
    (h : t.Serves r e) : SessionKnown env checkPasswordHash ok c₀ p t ↔
      Routed r e ∧ WasAdmitted env checkPasswordHash ok c₀ r p := by
  rcases h with rfl | ⟨h, rfl⟩
  · exact Iff.rfl
  · exact Iff.rfl

theorem SessionKnown.later {p q : Pool Store Session} {t : Session}
    (hstep : Step (IsArrival ok) (SessionAct env checkPasswordHash) (fun _ _ => True) p q)
    (h : SessionKnown env checkPasswordHash ok c₀ p t) : SessionKnown env checkPasswordHash ok c₀ q t := by
  cases t with
  | arrived | unrouted | unwrapped | refused => trivial
  | authenticating | authenticated | checking | granted | serving | updating => exact ⟨h.1, h.2.later hstep⟩

/-- In every run, with the configuration being replaced at any time, a handler that is behind
the two layers runs only for a request that the first one has found to be of a user, and the
second one, no earlier, to be of a user with access. -/
theorem admitted {p : Pool Store Session} (h : Comes env checkPasswordHash ok c₀ p) {t : Session}
    (ht : t ∈ p.threads) {r : Request} {e : Endpoint} (hserves : t.Serves r e) :
    Routed r e ∧ WasAdmitted env checkPasswordHash ok c₀ r p := by
  refine (sessionKnown_of_serves hserves).mp
    (h.known (K := SessionKnown env checkPasswordHash ok c₀) SessionKnown.later ?_ ?_ t ht)
  · rintro s ts t ⟨r, -, rfl⟩
    trivial
  · intro s t s' t' rest hreach hknown _ hact
    cases hact with
    | unrouted | unwrapped | reject | deny => trivial
    | copyFirst hroute hwrapped _ => exact ⟨⟨_, hroute, hwrapped, rfl⟩, Once.now hreach rfl⟩
    | authenticate hauth =>
        refine ⟨hknown.1, Once.mono hknown.2 ?_⟩
        rintro q rfl
        exact authenticates_of_basicAuth hauth
    | copySecond _ => exact ⟨hknown.1, Once.now hreach ⟨rfl, hknown.2⟩⟩
    | grant haccess =>
        refine ⟨hknown.1, Once.mono hknown.2 ?_⟩
        rintro q ⟨rfl, hauth⟩
        exact ⟨hasAccess_of_checkAccess haccess, hauth⟩
    | call => exact (sessionKnown_of_serves (serves_start _ _)).mpr hknown
    | update => exact hknown

end

/-! ### Without a password of a user that may write -/

/-- The request has no password of a user that may write. -/
def Powerless (env : Env) (checkPasswordHash : Str → Str → Bool) (c : CfgTemplate) (r : Request) : Prop :=
  ∀ name pass, r.credentials = some (name, pass) → ∀ user ∈ c.user, user.name = name →
    checkPasswordHash pass user.pass = true → toLower env.tables user.access ≠ "write".toList

def ReadOnly (env : Env) (c : CfgTemplate) (r : Request) : Prop :=
  ∀ name pass, r.credentials = some (name, pass) → ∀ user ∈ c.user, user.name = name →
    toLower env.tables user.access ≠ "write".toList

def SessionHeld (env : Env) (checkPasswordHash : Str → Str → Bool) (c : CfgTemplate) : Session → Prop
  | .arrived r => Powerless env checkPasswordHash c r
  | .authenticating r e users => Powerless env checkPasswordHash c r ∧ Routed r e ∧ users = c.user
  | .authenticated r e => Routed r e ∧ ReadOnly env c r
  | .checking r e users => Routed r e ∧ ReadOnly env c r ∧ users = c.user
  | .granted _ e => e ∈ readers
  | .serving _ e => e ∈ readers
  | .updating _ _ _ => False
  | _ => True

section

variable {env : Env} {checkPasswordHash : Str → Str → Bool} {c₀ : CfgTemplate}

theorem readOnly_of_authenticates {r : Request} (hvalid : validate env c₀ false = .ok ())
    (hpower : Powerless env checkPasswordHash c₀ r) (hauth : Authenticates checkPasswordHash c₀.user r) :
    ReadOnly env c₀ r := by
  obtain ⟨name, pass, hcred, user, huser, hname, hpass⟩ := hauth
  intro name' pass' hcred' user' huser' hname'
  obtain ⟨rfl, rfl⟩ := Prod.mk.inj (Option.some.inj (hcred.symm.trans hcred'))
  have hnodup := (validateUser_ok.mp (validate_ok.mp hvalid).2.2.1).1
  obtain rfl := List.inj_on_of_nodup_map hnodup huser huser' (hname.trans hname'.symm)
  exact hpower _ _ hcred _ huser hname hpass

/-- The second layer lets a session on that only reads. -/
theorem mem_readers_of_hasAccess {r : Request} {e : Endpoint} (hroute : Routed r e) (hread : ReadOnly env c₀ r)
    (haccess : HasAccess env.tables c₀.user r) : e ∈ readers := by
  obtain ⟨name, pass, hcred, user, huser, hname, hwrite | hpath⟩ := haccess
  · exact absurd hwrite (hread _ _ hcred _ huser hname)
  · obtain ⟨x, hx, -, rfl⟩ := hroute
    exact handler_mem_readers hpath hx

theorem sessionHeld_start {r : Request} {e : Endpoint} (hmem : e ∈ readers) :
    SessionHeld env checkPasswordHash c₀ (e.start r) := by
  cases e with
  | handlerPutConfig | handlerPutConfigBackup => exact absurd hmem (by decide)
  | _ => exact hmem

/-- Nobody who does not know the password of a user that may write gets anything written or
started, whatever requests are sent and however they are interleaved: the configuration stays
the first one, in memory and in the file, and no handler runs behind the two layers but those
that are for reading. -/
theorem powerless_run (hvalid : validate env c₀ false = .ok ()) {p : Pool Store Session}
    (h : Comes env checkPasswordHash (Powerless env checkPasswordHash c₀) c₀ p) :
    p.shared = ⟨c₀, c₀, false⟩ ∧ ∀ t ∈ p.threads, ∀ r e, t.Serves r e → e ∈ readers := by
  have hinv := h.invariant
    (I := fun s ts => s = ⟨c₀, c₀, false⟩ ∧ ∀ t ∈ ts, SessionHeld env checkPasswordHash c₀ t) ⟨rfl, by simp⟩
    (by
      rintro s ts t ⟨r, hr, rfl⟩ ⟨hs, hts⟩
      exact ⟨hs, Multiset.forall_mem_cons.mpr ⟨hr, hts⟩⟩)
    (by
      rintro s t s' t' rest ⟨rfl, hts⟩ - hact
      obtain ⟨ht, hrest⟩ := Multiset.forall_mem_cons.mp hts
      have hnext : s' = ⟨c₀, c₀, false⟩ ∧ SessionHeld env checkPasswordHash c₀ t' := by
        cases hact with
        | unrouted | unwrapped | reject | deny => exact ⟨rfl, trivial⟩
        | copyFirst hroute hwrapped _ => exact ⟨rfl, ht, ⟨_, hroute, hwrapped, rfl⟩, rfl⟩
        | authenticate hauth =>
            obtain ⟨hpower, hrouted, rfl⟩ := ht
            exact ⟨rfl, hrouted, readOnly_of_authenticates hvalid hpower (authenticates_of_basicAuth hauth)⟩
        | copySecond _ => exact ⟨rfl, ht.1, ht.2, rfl⟩
        | grant haccess =>
            obtain ⟨hrouted, hread, rfl⟩ := ht
            exact ⟨rfl, mem_readers_of_hasAccess hrouted hread (hasAccess_of_checkAccess haccess)⟩
        | call => exact ⟨rfl, sessionHeld_start ht⟩
        | update => exact ht.elim
      exact ⟨hnext.1, Multiset.forall_mem_cons.mpr ⟨hnext.2, hrest⟩⟩)
  refine ⟨hinv.1, fun t ht r e hserves => ?_⟩
  have hheld := hinv.2 t ht
  rcases hserves with rfl | ⟨_, rfl⟩
  · exact hheld
  · exact hheld.elim

end

/-! ### A user that is taken out -/

/-- The configuration has no user of this name. -/
def Gone (name : Str) (c : CfgTemplate) : Prop := name ∉ c.user.map ConfigUser.name

def inHand : Handler → List CfgTemplate
  | .put c => [c]
  | .putValid c => [c]
  | .putOld c _ => [c]
  | .putBackupBoth _ _ base => [base]
  | .edited _ _ c => [c]
  | .saving _ c => [c]
  | .written c => [c]
  | _ => []

def Session.inHand : Session → List CfgTemplate
  | .arrived r => r.newConfig.toList
  | .authenticating r _ _ => r.newConfig.toList
  | .authenticated r _ => r.newConfig.toList
  | .checking r _ _ => r.newConfig.toList
  | .granted r _ => r.newConfig.toList
  | .updating _ _ t => Access.inHand t
  | _ => []

/-- A request in the name of this user is being served, or has been. -/
def Session.servedTo (name : Str) : Session → Bool
  | .serving r _ => r.credentials.any (·.1 = name)
  | .updating r _ _ => r.credentials.any (·.1 = name)
  | _ => false

/-- A request in the name of this user may still be let on, by what the second layer has
copied or found. -/
def Session.letOnAs (name : Str) : Session → Bool
  | .checking r _ users => r.credentials.any (·.1 = name) && users.any (·.name = name)
  | .granted r _ => r.credentials.any (·.1 = name)
  | _ => false

/-- The store has no user of this name. -/
structure StoreGone (name : Str) (s : Store) : Prop where
  memory : Gone name s.memory
  file : Gone name s.file

section

variable {env : Env} {checkPasswordHash : Str → Str → Bool} {name : Str}

theorem gone_of_copyPasswords {c old c' : CfgTemplate} (hgone : Gone name c)
    (h : copyPasswordsFromOldConfig env.tables c old = .ok c') : Gone name c' := by
  obtain ⟨user, hu, h⟩ := bind_ok.mp h
  obtain ⟨backup, -, h⟩ := bind_ok.mp h
  obtain ⟨email, -, h⟩ := bind_ok.mp h
  obtain rfl := Except.ok.inj h
  rwa [Gone, names_of_copyUsers hu]

/-- A step of a handler brings nobody back that is in no configuration at hand. -/
theorem gone_of_act {s s' : Store} {t t' : Handler} (hact : Act env s t s' t') (hs : StoreGone name s)
    (ht : ∀ c ∈ inHand t, Gone name c) : StoreGone name s' ∧ ∀ c ∈ inHand t', Gone name c := by
  cases hact with
  | accept | copyOld => exact ⟨hs, ht⟩
  | same | noWrite | notify | noDatabase => exact ⟨hs, by simp [inHand]⟩
  | acceptBackup | copyFirst => exact ⟨hs, by simp [inHand]⟩
  | differ => exact ⟨hs, ht⟩
  | refuse | noFill | refuseBackup | noEdit =>
      rename Fault => e
      cases e <;> exact ⟨hs, by simp [inHand, Handler.after]⟩
  | fill h =>
      simp only [inHand, List.mem_singleton, forall_eq] at ht ⊢
      exact ⟨hs, gone_of_copyPasswords ht h⟩
  | copySecond =>
      simp only [inHand, List.mem_singleton, forall_eq]
      exact ⟨hs, hs.memory⟩
  | edit h =>
      obtain ⟨b', backup, -, -, rfl⟩ := editBackup_ok h
      simp only [inHand, List.mem_singleton, forall_eq] at ht ⊢
      exact ⟨hs, ht⟩
  | write =>
      simp only [inHand, List.mem_singleton, forall_eq] at ht ⊢
      exact ⟨⟨hs.memory, ht⟩, ht⟩
  | replace =>
      simp only [inHand, List.mem_singleton, forall_eq] at ht
      exact ⟨⟨ht, hs.file⟩, by simp [inHand]⟩

/-- Without a user of the name, the second layer lets nobody on in this name. -/
theorem not_named_of_gone {users : List ConfigUser} (hgone : name ∉ users.map ConfigUser.name) {r : Request}
    (h : HasAccess env.tables users r) : r.credentials.any (·.1 = name) = false := by
  obtain ⟨name', pass, hcred, user, huser, rfl, -⟩ := h
  rw [hcred, Option.any_some, decide_eq_false_iff_not]
  rintro rfl
  exact hgone (List.mem_map_of_mem huser)

theorem inHand_start {r : Request} {e : Endpoint} {c : CfgTemplate} (h : c ∈ (e.start r).inHand) :
    c ∈ r.newConfig.toList := by
  cases e with
  | handlerPutConfig =>
      cases hnew : r.newConfig with
      | none => simp [Endpoint.start, Session.inHand, inHand, hnew] at h
      | some c' => simpa [Endpoint.start, Session.inHand, inHand, hnew] using h
  | handlerPutConfigBackup =>
      cases hnew : r.newConfigBackup <;> simp [Endpoint.start, Session.inHand, inHand, hnew] at h
  | _ => exact absurd h List.not_mem_nil

theorem servedTo_start (r : Request) (e : Endpoint) :
    (e.start r).servedTo name = r.credentials.any (·.1 = name) := by
  rcases serves_start r e with hserves | ⟨_, hserves⟩ <;> rw [hserves] <;> rfl

theorem letOnAs_start (r : Request) (e : Endpoint) : (e.start r).letOnAs name = false := by
  rcases serves_start r e with hserves | ⟨_, hserves⟩ <;> rw [hserves] <;> rfl

/-- A step of a session, too. Nothing is served in the name that was not before, and could
not have been. -/
theorem gone_of_sessionAct {s s' : Store} {t t' : Session} (hact : SessionAct env checkPasswordHash s t s' t')
    (hs : StoreGone name s) (ht : ∀ c ∈ t.inHand, Gone name c) :
    StoreGone name s' ∧ (∀ c ∈ t'.inHand, Gone name c) ∧
      (t'.servedTo name || t'.letOnAs name → t.servedTo name || t.letOnAs name) := by
  cases hact with
  | unrouted | unwrapped | reject | deny =>
      exact ⟨hs, by simp [Session.inHand], by simp [Session.servedTo, Session.letOnAs]⟩
  | copyFirst | authenticate => exact ⟨hs, ht, id⟩
  | copySecond =>
      have hnone : s.memory.user.any (·.name = name) = false := by
        simpa [Gone, List.mem_map] using hs.memory
      exact ⟨hs, ht, by simp [Session.servedTo, Session.letOnAs, hnone]⟩
  | grant haccess =>
      refine ⟨hs, ht, fun hnamed => ?_⟩
      rename_i r e users
      change r.credentials.any (·.1 = name) = true at hnamed
      change (r.credentials.any (·.1 = name) && users.any (·.name = name)) = true
      rw [hnamed, Bool.true_and, ← Bool.not_eq_false]
      intro hnone
      have hgone : name ∉ users.map ConfigUser.name := by simpa using hnone
      rw [not_named_of_gone hgone (hasAccess_of_checkAccess haccess)] at hnamed
      cases hnamed
  | call =>
      rename_i r e
      refine ⟨hs, fun c hc => ht c (inHand_start hc), fun hnamed => ?_⟩
      rwa [servedTo_start, letOnAs_start, Bool.or_false] at hnamed
  | update h =>
      obtain ⟨hs', ht'⟩ := gone_of_act h hs ht
      exact ⟨hs', ht', id⟩

/-- Once a user is taken out, in memory and in the file, and no configuration at hand has it,
it stays out until one is sent that has it again. In the meantime no more requests are served in
its name than were before or had the user in the copy of the second layer; it is not enough
that the first layer has been passed. -/
theorem revoked {p q : Pool Store Session}
    (h : Relation.ReflTransGen (Step (IsArrival fun r => ∀ c ∈ r.newConfig.toList, Gone name c)
      (SessionAct env checkPasswordHash) fun _ _ => True) q p)
    (hs : StoreGone name q.shared) (hhand : ∀ t ∈ q.threads, ∀ c ∈ t.inHand, Gone name c) :
    StoreGone name p.shared ∧ p.threads.countP (fun t => t.servedTo name = true) ≤
      q.threads.countP fun t => t.servedTo name || t.letOnAs name := by
  have hinv := invariant_of_leads
    (I := fun s ts => StoreGone name s ∧ (∀ t ∈ ts, ∀ c ∈ t.inHand, Gone name c) ∧
      ts.countP (fun t => t.servedTo name || t.letOnAs name) ≤
        q.threads.countP fun t => t.servedTo name || t.letOnAs name)
    h ⟨hs, hhand, le_rfl⟩
    (by
      rintro s ts t ⟨r, hr, rfl⟩ ⟨hs, hts, hcount⟩
      refine ⟨hs, Multiset.forall_mem_cons.mpr ⟨hr, hts⟩, ?_⟩
      rwa [Multiset.countP_cons_of_neg]
      exact Bool.false_ne_true)
    (by
      rintro s t s' t' rest ⟨hs, hts, hcount⟩ - hact
      obtain ⟨ht, hrest⟩ := Multiset.forall_mem_cons.mp hts
      obtain ⟨hs', ht', hserved⟩ := gone_of_sessionAct hact hs ht
      refine ⟨hs', Multiset.forall_mem_cons.mpr ⟨ht', hrest⟩, le_trans ?_ hcount⟩
      rw [Multiset.countP_cons, Multiset.countP_cons]
      apply Nat.add_le_add_left
      split
      · rename_i hafter
        rw [if_pos (hserved hafter)]
      · exact Nat.zero_le _)
  refine ⟨hinv.1, le_trans ?_ hinv.2.2⟩
  rw [Multiset.countP_eq_card_filter, Multiset.countP_eq_card_filter]
  refine Multiset.card_le_card (Multiset.monotone_filter_right _ fun t hserved => ?_)
  rw [hserved, Bool.true_or]

end

/-! ### Three runs -/

def alice : ConfigUser := { name := "alice".toList, pass := "$2a".toList, access := "write".toList }

def bob : ConfigUser := { name := "bob".toList, pass := "$2b".toList }

def office (others : List ConfigUser) : CfgTemplate := { emptyConfig with user := alice :: others }

/-- A hash is the password with a mark in front. -/
def marked (pass hash : Str) : Bool := hash = "$2".toList ++ pass

def fromBob (method path : Str) : Request :=
  { method := method, path := path, credentials := some ("bob".toList, "b".toList) }

def fromAlice (path : Str) : Request :=
  { method := post, path := path, credentials := some ("alice".toList, "a".toList) }

section

variable {env : Env} {checkPasswordHash : Str → Str → Bool} {ok : Request → Prop} {c₀ : CfgTemplate} {s s' : Store}
  {ts : Multiset Session} {r : Request}

theorem Comes.arrive (h : Comes env checkPasswordHash ok c₀ ⟨s, ts⟩) (hr : ok r) :
    Comes env checkPasswordHash ok c₀ ⟨s, .arrived r ::ₘ ts⟩ :=
  Reachable.start h ⟨r, hr, rfl⟩

theorem Comes.next {t t' : Session} (h : Comes env checkPasswordHash ok c₀ ⟨s, t ::ₘ ts⟩)
    (hact : SessionAct env checkPasswordHash s t s' t') : Comes env checkPasswordHash ok c₀ ⟨s', t' ::ₘ ts⟩ :=
  Reachable.next h hact trivial

theorem Comes.swap {t t' : Session} (h : Comes env checkPasswordHash ok c₀ ⟨s, t ::ₘ t' ::ₘ ts⟩) :
    Comes env checkPasswordHash ok c₀ ⟨s, t' ::ₘ t ::ₘ ts⟩ := by
  rwa [Multiset.cons_swap]

/-- Each of the layers without a break, and the call of the handler. -/
theorem Comes.authenticated {x : Route} (h : Comes env checkPasswordHash ok c₀ ⟨s, .arrived r ::ₘ ts⟩)
    (hroute : route r = some x) (hwrapped : x.wrapped = true) (hlock : s.locked = false)
    (hauth : basicAuth checkPasswordHash s.memory.user r.credentials = .ok ()) :
    Comes env checkPasswordHash ok c₀ ⟨s, .authenticated r x.handler ::ₘ ts⟩ :=
  (h.next (.copyFirst hroute hwrapped hlock)).next (.authenticate hauth)

theorem Comes.served {e : Endpoint} (h : Comes env checkPasswordHash ok c₀ ⟨s, .authenticated r e ::ₘ ts⟩)
    (hlock : s.locked = false) (haccess : checkAccess env.tables s.memory.user r = .ok ()) :
    Comes env checkPasswordHash ok c₀ ⟨s, e.start r ::ₘ ts⟩ :=
  ((h.next (.copySecond hlock)).next (.grant haccess)).next .call

theorem Comes.putConfig {m f c d : CfgTemplate} {e : Endpoint}
    (h : Comes env checkPasswordHash ok c₀ ⟨⟨m, f, false⟩, .updating r e (.put c) ::ₘ ts⟩)
    (hc : validate env c true = .ok ()) (hfill : copyPasswordsFromOldConfig env.tables c m = .ok d) :
    Comes env checkPasswordHash ok c₀ ⟨⟨d, d, false⟩, .updating r e (.replied true) ::ₘ ts⟩ := by
  have hold := (h.next (.update (.accept hc))).next (.update (.copyOld rfl))
  have hsaving := (hold.next (.update (.fill hfill))).next (.update .differ)
  have hwritten := hsaving.next (.update (.write rfl))
  exact (hwritten.next (.update .replace)).next (.update .notify)

end

def newBob : ConfigUser := { name := "bob".toList, pass := "$2new".toList, access := "write".toList }

/-- `alice` sends a configuration with these users. -/
def sending (others : List ConfigUser) : Request := { fromAlice (api "/config") with newConfig := some (office others) }

/-- `bob` has passed the first layer, and `alice` replaces the user. The second layer lets the
request on, which has a password that could never write. -/
theorem comes_promoted : Comes smallEnv marked (fun _ => True) (office [bob])
    ⟨⟨office [newBob], office [newBob], false⟩,
      {.serving (fromBob post (api "/backup/start")) .handlerPostBackupStart,
        .updating (sending [newBob]) .handlerPutConfig (.replied true)}⟩ := by
  have hstart : Comes smallEnv marked (fun _ => True) (office [bob]) ⟨⟨office [bob], office [bob], false⟩, 0⟩ :=
    Relation.ReflTransGen.refl
  have hbob := (hstart.arrive (r := fromBob post (api "/backup/start")) trivial).authenticated
    (x := ⟨post, api "/backup/start", .handlerPostBackupStart, true⟩) (by decide) rfl rfl (by decide)
  have halice := (hbob.arrive (r := sending [newBob]) trivial).authenticated
    (x := ⟨post, api "/config", .handlerPutConfig, true⟩) (by decide) rfl rfl (by decide)
  have hput := (halice.served rfl (by decide)).putConfig (d := office [newBob]) (by decide) (by decide)
  exact hput.swap.served rfl (by decide)

theorem admitted_promoted : Routed (fromBob post (api "/backup/start")) .handlerPostBackupStart ∧
    WasAdmitted smallEnv marked (fun _ => True) (office [bob]) (fromBob post (api "/backup/start"))
      ⟨⟨office [newBob], office [newBob], false⟩,
        {.serving (fromBob post (api "/backup/start")) .handlerPostBackupStart,
          .updating (sending [newBob]) .handlerPutConfig (.replied true)}⟩ :=
  admitted comes_promoted (by simp) (.inl rfl)

/-- Neither the old configuration nor the new one would let the request through. -/
example : checkAccess smallEnv.tables (office [bob]).user (fromBob post (api "/backup/start")) ≠ .ok () ∧
    basicAuth marked (office [newBob]).user (fromBob post (api "/backup/start")).credentials ≠ .ok () := by
  decide

theorem powerless_bob (method path : Str) : Powerless smallEnv marked (office [bob]) (fromBob method path) := by
  intro name pass hcred
  obtain ⟨rfl, rfl⟩ := Prod.mk.inj (Option.some.inj hcred)
  decide

theorem comes_reading : Comes smallEnv marked (Powerless smallEnv marked (office [bob])) (office [bob])
    ⟨⟨office [bob], office [bob], false⟩, {.serving (fromBob get (api "/config")) .handlerGetConfig}⟩ := by
  have hstart : Comes smallEnv marked (Powerless smallEnv marked (office [bob])) (office [bob])
      ⟨⟨office [bob], office [bob], false⟩, 0⟩ :=
    Relation.ReflTransGen.refl
  have hbob := (hstart.arrive (powerless_bob get (api "/config"))).authenticated
    (x := ⟨get, api "/config", .handlerGetConfig, true⟩) (by decide) rfl rfl (by decide)
  exact hbob.served rfl (by decide)

theorem powerless_run_reading : validate smallEnv (office [bob]) false = .ok () ∧
    Endpoint.handlerGetConfig ∈ readers :=
  have hvalid : validate smallEnv (office [bob]) false = .ok () := by decide
  ⟨hvalid, (powerless_run hvalid comes_reading).2 _ (Multiset.mem_singleton_self _) _ _ (.inl rfl)⟩

theorem gone_bob : Gone "bob".toList (office []) := by
  unfold Gone
  decide

/-- `bob` is taken out while one request has passed the first layer and another one has got its
copy in the second. Only the other one is served. -/
theorem revoked_bob : StoreGone "bob".toList ⟨office [], office [], false⟩ ∧
    Multiset.countP (fun t => t.servedTo "bob".toList = true)
        {Session.refused (fromBob get (api "/backup/list"))
            (forbidden "bob".toList (fromBob get (api "/backup/list"))),
          Session.serving (fromBob get (api "/config")) .handlerGetConfig} ≤
      Multiset.countP (fun t => t.servedTo "bob".toList || t.letOnAs "bob".toList)
        {Session.authenticated (fromBob get (api "/backup/list")) .handlerGetBackupList,
          Session.checking (fromBob get (api "/config")) .handlerGetConfig (office [bob]).user} := by
  have hdeny : SessionAct smallEnv marked ⟨office [], office [], false⟩
      (.checking (fromBob get (api "/backup/list")) .handlerGetBackupList (office []).user)
      ⟨office [], office [], false⟩ (.refused (fromBob get (api "/backup/list"))
        (forbidden "bob".toList (fromBob get (api "/backup/list")))) :=
    .deny (checkAccess_of_not_hasAccess rfl fun h => absurd (not_named_of_gone gone_bob h) (by decide))
  have hgrant : SessionAct smallEnv marked ⟨office [], office [], false⟩
      (.checking (fromBob get (api "/config")) .handlerGetConfig (office [bob]).user)
      ⟨office [], office [], false⟩ (.granted (fromBob get (api "/config")) .handlerGetConfig) :=
    .grant (by decide)
  have hfirst : Relation.ReflTransGen
      (Step (IsArrival fun r => ∀ c ∈ r.newConfig.toList, Gone "bob".toList c)
        (SessionAct smallEnv marked) fun _ _ => True)
      ⟨⟨office [], office [], false⟩, {.authenticated (fromBob get (api "/backup/list")) .handlerGetBackupList,
        .checking (fromBob get (api "/config")) .handlerGetConfig (office [bob]).user}⟩
      ⟨⟨office [], office [], false⟩, .refused (fromBob get (api "/backup/list"))
        (forbidden "bob".toList (fromBob get (api "/backup/list"))) ::ₘ
          {.checking (fromBob get (api "/config")) .handlerGetConfig (office [bob]).user}⟩ :=
    (Relation.ReflTransGen.single (.act trivial (.copySecond rfl))).tail (.act trivial hdeny)
  have hswap : ∀ t t' : Session, t ::ₘ ({t'} : Multiset Session) = t' ::ₘ {t} := fun t t' => Multiset.cons_swap t t' 0
  rw [hswap] at hfirst
  have hrun := (hfirst.tail (.act trivial hgrant)).tail (.act trivial .call)
  rw [hswap] at hrun
  exact revoked hrun ⟨gone_bob, gone_bob⟩ (by simp [Session.inHand, fromBob])

/-- A backup is being saved while `bob` is taken out. -/
theorem comes_undone : Comes smallEnv marked (fun _ => True) (office [bob])
    ⟨⟨office [], office [], false⟩,
      {.updating { fromAlice (api "/config/backup") with newConfigBackup := some (plainBackup "a".toList) }
          .handlerPutConfigBackup (.saving (office [bob]) { office [bob] with backup := [plainBackup "a".toList] }),
        .updating (sending []) .handlerPutConfig (.replied true)}⟩ := by
  have hstart : Comes smallEnv marked (fun _ => True) (office [bob]) ⟨⟨office [bob], office [bob], false⟩, 0⟩ :=
    Relation.ReflTransGen.refl
  have hpassed := (hstart.arrive (r := { fromAlice (api "/config/backup") with
      newConfigBackup := some (plainBackup "a".toList) }) trivial).authenticated
    (x := ⟨post, api "/config/backup", .handlerPutConfigBackup, true⟩) (by decide) rfl rfl (by decide)
  have hbackup := (hpassed.served rfl (by decide)).next (.update (.acceptBackup (by decide)))
  have hboth := (hbackup.next (.update (.copyFirst rfl))).next (.update (.copySecond rfl))
  have hsaving := (hboth.next (.update (.edit (c := { office [bob] with backup := [plainBackup "a".toList] })
    (by decide)))).next (.update .differ)
  have hother := (hsaving.arrive (r := sending []) trivial).authenticated
    (x := ⟨post, api "/config", .handlerPutConfig, true⟩) (by decide) rfl rfl (by decide)
  exact ((hother.served rfl (by decide)).putConfig (d := office []) (by decide) (by decide)).swap

/-- A configuration at hand can bring a user back, with no further request. -/
theorem undone : ∃ q p, Comes smallEnv marked (fun _ => True) (office [bob]) q ∧
    Relation.ReflTransGen (Step (IsArrival fun _ => False) (SessionAct smallEnv marked) fun _ _ => True) q p ∧
    StoreGone "bob".toList q.shared ∧ bob ∈ p.shared.memory.user ∧ bob ∈ p.shared.file.user := by
  refine ⟨_, _, comes_undone, .head (.act trivial (.update (.write rfl))) (.single (.act trivial (.update .replace))),
    ⟨gone_bob, gone_bob⟩, ?_, ?_⟩
  · exact .tail _ (.head _)
  · exact .tail _ (.head _)

end CloudBackup.Httpd.Access
