import ProjectManager.Lib.Text

/-!
# The session gate of the web service

`AuthMiddleware.dispatch` decides, before any route runs, whether a request without a session may
go on.  The gate is a prefix test on the request path, the route table is spread over the routers
that `create_app` includes, and the two meet only in the text of the paths.

* `dispatch_api` states what the gate does with an API path when nobody is logged in.
* `route_exposed_iff` settles which registered routes the public prefixes cover.
-/

namespace ProjectManager.Server

open Text

/-! ### The middleware -/

/-- `_PUBLIC_PREFIXES`: what a request path may begin with to pass without a session. -/
def publicPrefixes : List String :=
  ["/api/login", "/api/logout", "/api/me", "/api/setup/status", "/health", "/assets/", "/static/",
    "/favicon", "/icons"]

/-- The part of a request that the middleware reads; `user` is `request.session.get("user")`. -/
structure Request where
  path : String
  user : Option String
deriving DecidableEq, Repr

/-- What the middleware does with a request. -/
inductive Outcome where
  /-- `call_next`: the request goes on to the routes -/
  | callNext
  /-- the middleware answers by itself -/
  | answer (status : ℕ) (body : String)
  /-- the single-page application's `index.html` -/
  | indexFile
deriving DecidableEq, Repr

/-- The process environment and the file system, as far as the middleware reads them. -/
structure WebEnv where
  /-- `WEB_AUTH_PASSWORD_HASH`, empty when unset -/
  passwordHash : String
  /-- `index.is_file()` -/
  indexIsFile : Bool

/-- `auth_enabled`: a password hash is configured. -/
def authEnabled (env : WebEnv) : Bool :=
  strip env.passwordHash != ""

/-- The truth value of `request.session.get("user")`. -/
def Request.loggedIn (r : Request) : Bool :=
  match r.user with
  | none => false
  | some user => user != ""

/-- The path passes without a session. -/
def isPublic (path : String) : Bool :=
  path == "/" || publicPrefixes.any (startsWith path)

/-- `AuthMiddleware.dispatch`. -/
def dispatch (env : WebEnv) (r : Request) : Outcome :=
  if !authEnabled env then
    .callNext
  else if isPublic r.path then
    .callNext
  else if r.loggedIn then
    .callNext
  else if startsWith r.path "/api/" then
    .answer 401 "\x7b\"detail\":\"chưa đăng nhập\"\x7d"
  else if env.indexIsFile then
    .indexFile
  else
    .answer 401 "login required"

/-- The refusal an API request gets without a session. -/
def notLoggedIn : Outcome :=
  .answer 401 "\x7b\"detail\":\"chưa đăng nhập\"\x7d"

/-- The API paths meant to be open: the only ones the middleware's comment names. -/
def openApiPaths : List String :=
  ["/api/login", "/api/logout", "/api/me", "/api/setup/status"]

/-- `p` goes on after `q`. -/
def Extends (p q : String) : Prop :=
  startsWith p q = true ∧ p ≠ q

instance (p q : String) : Decidable (Extends p q) :=
  inferInstanceAs (Decidable (_ ∧ _))

/-- An API path is public exactly through one of the four API prefixes. -/
theorem isPublic_api {path : String} (h : startsWith path "/api/" = true) :
    isPublic path = true ↔ ∃ q ∈ openApiPaths, startsWith path q = true := by
  have hroot : path ≠ "/" := by
    rintro rfl
    exact absurd h (by decide)
  have hapart : ∀ q ∈ ["/health", "/assets/", "/static/", "/favicon", "/icons"],
      meets q.toList "/api/".toList = false := by
    decide
  have hother : ∀ q ∈ ["/health", "/assets/", "/static/", "/favicon", "/icons"],
      startsWith path q = false := by
    intro q hq
    by_contra hne
    have hmeets := meets_of_begins (startsWith_iff.1 (by simpa using hne)) (startsWith_iff.1 h)
    rw [hapart q hq] at hmeets
    exact absurd hmeets (by decide)
  simp only [List.mem_cons, List.not_mem_nil, or_false, forall_eq_or_imp, forall_eq] at hother
  simp [isPublic, publicPrefixes, openApiPaths, hroot, hother]

/-- What the gate does with an API request when auth is on and nobody is logged in. -/
theorem dispatch_api {env : WebEnv} {r : Request} (henv : authEnabled env = true)
    (huser : r.loggedIn = false) (hapi : startsWith r.path "/api/" = true) :
    dispatch env r = if ∃ q ∈ openApiPaths, startsWith r.path q = true then .callNext else notLoggedIn := by
  by_cases hpub : isPublic r.path = true
  · simp [dispatch, henv, hpub, (isPublic_api hapi).1 hpub]
  · have hnone : ¬ ∃ q ∈ openApiPaths, startsWith r.path q = true := fun h => hpub ((isPublic_api hapi).2 h)
    rw [if_neg hnone]
    simp [dispatch, henv, hpub, huser, hapi, notLoggedIn]

/-- No open path goes on after another one. -/
theorem open_paths_apart : ∀ p ∈ openApiPaths, ∀ q ∈ openApiPaths, ¬ Extends p q := by
  decide

/-- Without a session the gate keeps every API path but the four open ones exactly when the path
does not go on after one of the four: the prefix test does not stop at the end of a path. -/
theorem gate_closed_iff (env : WebEnv) (r : Request) (henv : authEnabled env = true)
    (huser : r.loggedIn = false) (hapi : startsWith r.path "/api/" = true) :
    (r.path ∉ openApiPaths → dispatch env r = notLoggedIn) ↔ ∀ q ∈ openApiPaths, ¬ Extends r.path q := by
  rw [dispatch_api henv huser hapi]
  constructor
  · rintro hclosed q hq ⟨hstarts, hne⟩
    have hnot : r.path ∉ openApiPaths := fun hmem => open_paths_apart r.path hmem q hq ⟨hstarts, hne⟩
    have hrefused := hclosed hnot
    rw [if_pos ⟨q, hq, hstarts⟩] at hrefused
    exact absurd hrefused (by decide)
  · intro hext hnot
    rw [if_neg]
    rintro ⟨q, hq, hstarts⟩
    exact hext q hq ⟨hstarts, fun h => hnot (h ▸ hq)⟩

/-- The environment of the examples: a hash is set and the application is built. -/
def guardedEnv : WebEnv where
  passwordHash := "$2b$12$"
  indexIsFile := true

theorem gate_closed_iff_cost :
    ("/api/cost/pm" ∉ openApiPaths → dispatch guardedEnv ⟨"/api/cost/pm", none⟩ = notLoggedIn) ↔
      ∀ q ∈ openApiPaths, ¬ Extends "/api/cost/pm" q :=
  gate_closed_iff guardedEnv ⟨"/api/cost/pm", none⟩ (by decide) rfl (by decide)

/-- A request for an agent's memory reaches its route without a session: "/api/me" begins its path. -/
theorem gate_open_at_memory :
    ¬ ∀ (env : WebEnv) (r : Request), authEnabled env = true → r.loggedIn = false →
      startsWith r.path "/api/" = true → r.path ∉ openApiPaths → dispatch env r = notLoggedIn := by
  intro h
  have hrefused := h guardedEnv ⟨"/api/memory/pm", none⟩ (by decide) rfl (by decide) (by decide)
  exact absurd hrefused (by decide)

/-! ### The route table -/

/-- One segment of a route's path: fixed text or a parameter such as `agent_id`. -/
inductive Segment where
  | lit (text : String)
  | param (name : String)
deriving DecidableEq, Repr

/-- The request methods the routers use. -/
inductive Method where
  | get | post | put | patch | delete
deriving DecidableEq, Repr

/-- A registered route. -/
structure Route where
  method : Method
  segments : List Segment
deriving DecidableEq, Repr

/-- A parameter stands for a non-empty text without a slash. -/
def Segment.Matches : Segment → List Char → Prop
  | .lit text, part => part = text.toList
  | .param _, part => part ≠ [] ∧ '/' ∉ part

/-- The characters of a path that the segments describe, each after a slash. -/
inductive PathMatches : List Segment → List Char → Prop where
  | nil : PathMatches [] []
  | cons {s : Segment} {rest : List Segment} {path : List Char} (part : List Char)
      (head : s.Matches part) (tail : PathMatches rest path) : PathMatches (s :: rest) ('/' :: part ++ path)

/-- The route answers requests for this path. -/
def Route.Matches (r : Route) (path : String) : Prop :=
  PathMatches r.segments path.toList

/-- The fixed text a route's path begins with: up to its first parameter. -/
def fixedHead : List Segment → List Char
  | [] => []
  | .lit text :: rest => '/' :: text.toList ++ fixedHead rest
  | .param _ :: _ => ['/']

theorem fixedHead_begins {segments : List Segment} {path : List Char} (h : PathMatches segments path) :
    fixedHead segments <+: path := by
  induction h with
  | nil =>
      exact List.nil_prefix
  | @cons s rest path part head tail ih =>
      cases s with
      | lit text =>
          obtain rfl : part = text.toList := head
          simpa [fixedHead] using ih
      | param name =>
          exact ⟨part ++ path, by simp [fixedHead]⟩

/-- A route under `/api`. -/
def apiRoute (method : Method) (segments : List Segment) : Route :=
  ⟨method, .lit "api" :: segments⟩

/-- A route under `/api/agents/{agent_id}`. -/
def agentRoute (method : Method) (segments : List Segment) : Route :=
  apiRoute method (.lit "agents" :: .param "agent_id" :: segments)

/-- A route under `/api/office`. -/
def officeRoute (method : Method) (segments : List Segment) : Route :=
  apiRoute method (.lit "office" :: segments)

/-- The routers of `auth` and `routes_setup`. -/
def sessionRoutes : List Route :=
  [apiRoute .post [.lit "login"], apiRoute .post [.lit "logout"], apiRoute .get [.lit "me"],
    apiRoute .get [.lit "setup", .lit "status"], apiRoute .post [.lit "setup", .lit "env"],
    apiRoute .post [.lit "setup", .lit "test", .param "group"],
    apiRoute .post [.lit "setup", .lit "finish"]]

/-- The routers of `routes_agents`, `routes_runs` and `routes_visualize`. -/
def dashboardRoutes : List Route :=
  [apiRoute .get [.lit "agents"], agentRoute .get [.lit "status"], agentRoute .post [.lit "trigger"],
    apiRoute .get [.lit "runs", .param "run_id", .lit "stream"],
    apiRoute .get [.lit "runs", .param "agent_id"], apiRoute .get [.lit "cost", .param "agent_id"],
    apiRoute .get [.lit "memory", .param "agent_id"],
    apiRoute .get [.lit "automation", .param "agent_id"],
    apiRoute .get [.lit "audit", .param "agent_id"]]

/-- The routers of `routes_ops_json`, `routes_agents_admin` and `routes_company`. -/
def adminRoutes : List Route :=
  [agentRoute .get [.lit "approvals"],
    agentRoute .post [.lit "approvals", .param "approval_id", .lit "approve"],
    agentRoute .post [.lit "approvals", .param "approval_id", .lit "reject"],
    agentRoute .get [.lit "config"], agentRoute .post [.lit "config", .lit "profile"],
    agentRoute .post [.lit "config", .param "md"], apiRoute .get [.lit "packs"],
    apiRoute .post [.lit "agents", .lit "create"], apiRoute .get [.lit "agents", .lit "unregistered"],
    agentRoute .post [.lit "register"], agentRoute .patch [.lit "enabled"], agentRoute .delete [],
    apiRoute .get [.lit "health", .lit "integrations"], apiRoute .get [.lit "team", .lit "alerts"],
    apiRoute .get [.lit "company"], apiRoute .post [.lit "company"],
    apiRoute .get [.lit "staff-templates"]]

/-- The routers of `routes_office_assign`, `routes_office_room_chat`, `routes_office_artifacts` and
`routes_office_stream`. -/
def officeRoutes : List Route :=
  [officeRoute .get [.lit "assign", .lit "staff"], officeRoute .post [.lit "assign", .lit "preview"],
    officeRoute .post [.lit "assign", .lit "confirm"], officeRoute .post [.lit "assign", .lit "cancel"],
    officeRoute .get [.lit "workrooms"],
    officeRoute .post [.lit "rooms", .param "room_id", .lit "chat"],
    officeRoute .post [.lit "rooms", .param "room_id", .lit "chat", .lit "confirm-adjust"],
    apiRoute .get [.lit "health", .lit "coordinator"],
    officeRoute .get [.lit "rooms", .param "room_id", .lit "artifacts"],
    officeRoute .get [.lit "tasks", .param "task_id", .lit "steps", .param "seq", .lit "artifact"],
    officeRoute .get [.lit "rooms"], officeRoute .get [.lit "rooms", .param "room_id", .lit "stream"]]

/-- The routers of `routes_ops_chat`, the agent studio, `routes_company_docs` and `routes_tasks`. -/
def studioRoutes : List Route :=
  [apiRoute .get [.lit "ops", .lit "chat", .lit "available"], apiRoute .post [.lit "ops", .lit "chat"],
    agentRoute .get [.lit "knowledge", .param "doc"], agentRoute .put [.lit "knowledge", .param "doc"],
    agentRoute .get [.lit "skills"], agentRoute .put [.lit "skills"],
    agentRoute .post [.lit "telegram"], agentRoute .post [.lit "telegram", .lit "updates"],
    agentRoute .get [.lit "company-docs"], agentRoute .put [.lit "company-docs"],
    apiRoute .get [.lit "company-docs"], apiRoute .get [.lit "company-docs", .param "slug"],
    apiRoute .post [.lit "company-docs"], apiRoute .put [.lit "company-docs", .param "slug"],
    apiRoute .delete [.lit "company-docs", .param "slug"], apiRoute .get [.lit "tasks"],
    apiRoute .post [.lit "tasks", .param "agent_id", .param "task_id", .lit "cancel"]]

/-- The API routes that `create_app` registers. -/
def apiRoutes : List Route :=
  sessionRoutes ++ dashboardRoutes ++ adminRoutes ++ officeRoutes ++ studioRoutes

/-- `routes_visualize`'s route for an agent's memory. -/
def memoryRoute : Route :=
  apiRoute .get [.lit "memory", .param "agent_id"]

/-- Every segment of the route is fixed text. -/
def Route.isFixed (route : Route) : Bool :=
  route.segments.all fun s => match s with
    | .lit _ => true
    | .param _ => false

theorem path_of_fixed {segments : List Segment} {path : List Char} (h : PathMatches segments path)
    (hfixed : (segments.all fun s => match s with | .lit _ => true | .param _ => false) = true) :
    path = fixedHead segments := by
  induction h with
  | nil =>
      rfl
  | @cons s rest path part head tail ih =>
      cases s with
      | lit text =>
          obtain rfl : part = text.toList := head
          rw [ih (by simpa using hfixed)]
          rfl
      | param name =>
          simp at hfixed

/-- A route can be reached without a session at some path that is not one of the open ones. -/
def Route.Exposed (env : WebEnv) (route : Route) : Prop :=
  ∃ path, route.Matches path ∧ path ∉ openApiPaths ∧ dispatch env ⟨path, none⟩ = .callNext

/-- Where a route's fixed head meets an open path, the route is that open path or the memory route. -/
theorem routes_apart : ∀ route ∈ apiRoutes, ∀ q ∈ openApiPaths,
    meets q.toList (fixedHead route.segments) = true →
      route = memoryRoute ∨ route.isFixed = true ∧ fixedHead route.segments = q.toList := by
  decide

theorem apiRoutes_api : ∀ route ∈ apiRoutes, "/api/".toList <+: fixedHead route.segments := by
  decide

/-- Of the registered API routes, the public prefixes cover the memory route and no other one. -/
theorem route_exposed_iff (env : WebEnv) (henv : authEnabled env = true) :
    ∀ route ∈ apiRoutes, route.Exposed env ↔ route = memoryRoute := by
  intro route hroute
  constructor
  · rintro ⟨path, hmatch, hnot, hnext⟩
    have hhead := fixedHead_begins hmatch
    have hapi : startsWith path "/api/" = true :=
      startsWith_iff.2 ((apiRoutes_api route hroute).trans hhead)
    rw [dispatch_api henv rfl hapi] at hnext
    split at hnext
    case isTrue hopen =>
      obtain ⟨q, hq, hstarts⟩ := hopen
      rcases routes_apart route hroute q hq (meets_of_begins (startsWith_iff.1 hstarts) hhead) with
        hmem | ⟨hfixed, heq⟩
      · exact hmem
      · have hpath : path.toList = q.toList := (path_of_fixed hmatch hfixed).trans heq
        exact absurd (String.toList_injective hpath ▸ hq) hnot
    case isFalse =>
      exact absurd hnext (by decide)
  · rintro rfl
    refine ⟨"/api/memory/pm", ?_, by decide, ?_⟩
    · have hagent : (Segment.param "agent_id").Matches "pm".toList := by
        constructor <;> decide
      exact .cons "api".toList rfl (.cons "memory".toList rfl (.cons "pm".toList hagent .nil))
    · rw [dispatch_api henv rfl (by decide)]
      exact if_pos ⟨"/api/me", by decide, by decide⟩

end ProjectManager.Server
