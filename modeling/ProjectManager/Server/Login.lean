import Mathlib.Algebra.Order.Ring.Rat
import ProjectManager.Actions.Mediation
import ProjectManager.Lib.Chronicle
import ProjectManager.Lib.OpenWindow
import ProjectManager.Server.Auth

/-!
# Logging in

`login` asks the limiter first, awaits the body of the request, and records a failed attempt after that.  What other
requests record while it waits is not looked at again, so requests that wait together all have their password
verified.  `login_limited` says when the limit holds over a run: whenever a wrong password is verified, the limiter is
still open.
-/

namespace ProjectManager.Server

open OpenWindow Process

/-! ### The handler -/

/-- The environment of the login. -/
structure LoginEnv extends WebEnv where
  /-- `WEB_AUTH_USERNAME`, if set -/
  username : Option String

/-- A login request: the host of its client, and the body as JSON, if it is JSON. -/
structure LoginRequest where
  host : Option String
  body : Option Val

/-- `_login_attempts` and the clock. -/
structure LoginWorld where
  attempts : String → List ℚ
  clock : ℚ

/-- `_LOGIN_MAX`. -/
def loginMax : ℕ :=
  5

/-- `_LOGIN_WINDOW_S`. -/
def loginWindow : ℚ :=
  60

/-- What the handler does between two of its steps, and `json`, the await of the body. -/
inductive LoginCall where
  | rateLimited (ip : String)
  | json (body : Option Val)
  | recordAttempt (ip : String)

/-- What a call answers. -/
@[reducible] def LoginCall.Resp : LoginCall → Type
  | rateLimited _ => Bool
  | json _ => Option Val
  | recordAttempt _ => Unit

/-- `_rate_limited`. -/
def isRateLimited (ip : String) (w : LoginWorld) : Bool :=
  decide (loginMax ≤ (recent loginWindow w.clock (w.attempts ip)).length)

/-- Runs a call. -/
def LoginCall.handle : (c : LoginCall) → LoginWorld → c.Resp × LoginWorld
  | rateLimited ip, w =>
      (isRateLimited ip w,
        { w with attempts := Function.update w.attempts ip (recent loginWindow w.clock (w.attempts ip)) })
  | json body, w => (body, w)
  | recordAttempt ip, w => ((), { w with attempts := Function.update w.attempts ip (w.attempts ip ++ [w.clock]) })

/-- The answers of the handler. -/
inductive LoginReply where
  | disabled
  | ok (username : String)
  | refused (status : ℕ) (detail : String)

/-- The client address. -/
def LoginRequest.ip (r : LoginRequest) : String :=
  r.host.getD "?"

/-- `str(body.get(key) or "")`. -/
def bodyField (py : Python) (body : Val) (key : String) : Except String String := do
  return py.str ((← body.getKey key .none).orElse (.str ""))

/-- The user name that is expected. -/
def LoginEnv.expectedUser (env : LoginEnv) : String :=
  env.username.getD "admin"

/-- Programs of the handler. -/
abbrev LoginProg :=
  Prog LoginCall LoginCall.Resp

/-- Issues one call. -/
def loginCall (c : LoginCall) : LoginProg c.Resp :=
  .ask c

section Handler

variable (py : Python) (verify : String → String → Bool) (env : LoginEnv)

/-- `login`, with `_verify` as a parameter. -/
def login (r : LoginRequest) : LoginProg LoginReply :=
  if !authEnabled env.toWebEnv then
    return .disabled
  else do
    let limited ← loginCall (.rateLimited r.ip)
    if limited then
      return .refused 429 "Quá nhiều lần thử, đợi một phút rồi thử lại."
    else
      let body ← loginCall (.json r.body)
      match body with
      | none => return .refused 400 "body phải là JSON"
      | some body => do
          let username ← Prog.ofExcept (bodyField py body "username")
          let password ← Prog.ofExcept (bodyField py body "password")
          if username = env.expectedUser ∧ verify password env.passwordHash = true then
            return .ok username
          else
            let _ ← loginCall (.recordAttempt r.ip)
            return .refused 401 "Sai tên đăng nhập hoặc mật khẩu."

/-- The logins of a server: any request may come at any time, and the clock does not go back. -/
def loginSystem : System LoginWorld LoginRequest LoginCall LoginCall.Resp where
  handle := LoginCall.handle
  forks := fun _ => none
  starts := fun _ r prog => prog = (login py verify env r).bind fun _ => .ret ()
  ext := fun w w' => ∃ t, w.clock ≤ t ∧ w' = { w with clock := t }
  allows := fun _ _ _ => True

end Handler

/-- A call of a login. -/
abbrev LoginEvent :=
  Event LoginWorld LoginRequest LoginCall LoginCall.Resp

/-- The call records an attempt of the address. -/
def RecordsFor (ip : String) (ev : LoginEvent) : Prop :=
  ev.entry.1 = .recordAttempt ip

/-- The password of the request is verified: it comes with the expected user name. -/
def LoginRequest.verifies (py : Python) (env : LoginEnv) (r : LoginRequest) : Bool :=
  match r.body with
  | none => false
  | some body =>
      match bodyField py body "username" with
      | .ok username => decide (username = env.expectedUser)
      | .error _ => false

/-- The times at which attempts of the address were recorded. -/
def recorded (ip : String) (events : List LoginEvent) : List ℚ :=
  events.filterMap fun ev =>
    match ev.entry.1 with
    | .recordAttempt ip' => if ip' = ip then some ev.world.clock else none
    | _ => none

/-- The times at which the verification of a password failed for the address. -/
def failedVerifications (py : Python) (env : LoginEnv) (ip : String) (events : List LoginEvent) : List ℚ :=
  recorded ip (events.filter fun ev => ev.party.verifies py env)

/-- Runs begin without requests and without attempts of the address. -/
def freshLogins (ip : String) (pool : Pool LoginWorld LoginRequest LoginCall LoginCall.Resp) : Prop :=
  pool.procs = [] ∧ pool.world.attempts ip = []

/-! ### What a login does -/

section Runs

variable {py : Python} {verify : String → String → Bool} {env : LoginEnv} {ip : String} {events : List LoginEvent}
  {pool : Pool LoginWorld LoginRequest LoginCall LoginCall.Resp} {w : LoginWorld}

theorem recorded_append (more : List LoginEvent) : recorded ip (events ++ more) = recorded ip events ++ recorded ip more :=
  List.filterMap_append

/-- The limiter has forgotten nothing that counts at the time or later. -/
structure Remembers (ip : String) (events : List LoginEvent) (w : LoginWorld) : Prop where
  sorted : (recorded ip events).Pairwise (· ≤ ·)
  past : ∀ t ∈ recorded ip events, t ≤ w.clock
  kept : ∀ now, w.clock ≤ now → recent loginWindow now (w.attempts ip) = recent loginWindow now (recorded ip events)

/-- Every call keeps what the limiter has to remember. -/
theorem Remembers.handle (h : Remembers ip events w) (e : LoginCall) (p : LoginRequest)
    (log : Log LoginCall LoginCall.Resp) :
    Remembers ip (events ++ [⟨w, p, log, e, (e.handle w).1⟩]) (e.handle w).2 := by
  -- a call that records nothing for the address, and forgets nothing that counts
  have hother : ∀ w' : LoginWorld, recorded ip [(⟨w, p, log, e, (e.handle w).1⟩ : LoginEvent)] = [] →
      w'.clock = w.clock →
      (∀ now, w.clock ≤ now → recent loginWindow now (w'.attempts ip) = recent loginWindow now (w.attempts ip)) →
      Remembers ip (events ++ [⟨w, p, log, e, (e.handle w).1⟩]) w' := by
    intro w' hnone hclock hattempts
    constructor
    · rw [recorded_append, hnone, List.append_nil]
      exact h.sorted
    · rw [recorded_append, hnone, List.append_nil, hclock]
      exact h.past
    · rw [recorded_append, hnone, List.append_nil, hclock]
      exact fun now hnow => (hattempts now hnow).trans (h.kept now hnow)
  cases e with
  | json body =>
      exact hother w rfl rfl fun _ _ => rfl
  | rateLimited ip' =>
      refine hother _ rfl rfl fun now hnow => ?_
      by_cases hip : ip' = ip
      · subst hip
        simp only [LoginCall.handle, Function.update_self]
        exact recent_recent hnow
      · simp only [LoginCall.handle, Function.update_of_ne (Ne.symm hip)]
  | recordAttempt ip' =>
      by_cases hip : ip' = ip
      · subst hip
        have hone : recorded ip' [(⟨w, p, log, .recordAttempt ip', ()⟩ : LoginEvent)] = [w.clock] := by
          simp [recorded]
        constructor
        · rw [recorded_append, hone, List.pairwise_append]
          refine ⟨h.sorted, List.pairwise_singleton _ _, fun t ht s hs => ?_⟩
          rw [List.mem_singleton.1 hs]
          exact h.past t ht
        · rw [recorded_append, hone]
          intro t ht
          obtain hold | hnew := List.mem_append.1 ht
          · exact h.past t hold
          · exact (List.mem_singleton.1 hnew).le
        · intro now hnow
          rw [recorded_append, hone]
          simp only [LoginCall.handle, Function.update_self, recent_append]
          rw [h.kept now hnow]
      · refine hother _ ?_ rfl fun now _ => ?_
        · simp [recorded, hip]
        · simp only [LoginCall.handle, Function.update_of_ne (Ne.symm hip)]

theorem remembers_of_chronicle (h : (loginSystem py verify env).Chronicle (freshLogins ip) events pool) :
    Remembers ip events pool.world := by
  induction h with
  | init h =>
      refine ⟨List.Pairwise.nil, by simp [recorded], fun now _ => ?_⟩
      rw [h.2]
      rfl
  | run _ _ ih =>
      exact ih.handle _ _ _
  | start _ _ ih =>
      exact ih
  | leave _ ih =>
      exact ih
  | ext _ hext ih =>
      obtain ⟨t, ht, rfl⟩ := hext
      exact ⟨ih.sorted, fun s hs => (ih.past s hs).trans ht, fun now hnow => ih.kept now (ht.trans hnow)⟩

theorem recorded_eq_one {ev : LoginEvent} (h : RecordsFor ip ev) : recorded ip [ev] = [ev.world.clock] := by
  have hcall : ev.entry.1 = .recordAttempt ip := h
  simp [recorded, hcall]

/-- A recorded attempt is a call of the run. -/
theorem exists_of_recorded {past later : List ℚ} {now : ℚ} (h : recorded ip events = past ++ now :: later) :
    ∃ before ev after, events = before ++ ev :: after ∧ RecordsFor ip ev ∧ ev.world.clock = now ∧
      recorded ip before = past := by
  obtain ⟨before, rest, rfl, hbefore, hrest⟩ := List.filterMap_eq_append_iff.1 h
  obtain ⟨skipped, ev, after, rfl, hskipped, hev, -⟩ := List.filterMap_eq_cons_iff.1 hrest
  refine ⟨before ++ skipped, ev, after, by simp, ?_, ?_, ?_⟩
  · split at hev
    case h_1 ip' hcall =>
      obtain ⟨rfl, -⟩ := Option.ite_none_right_eq_some.1 hev
      exact hcall
    case h_2 =>
      cases hev
  · split at hev
    case h_1 ip' hcall =>
      exact Option.some.inj (Option.ite_none_right_eq_some.1 hev).2
    case h_2 =>
      cases hev
  · have hnone : recorded ip skipped = [] := List.filterMap_eq_nil_iff.2 hskipped
    rw [recorded_append, hnone, List.append_nil]
    exact hbefore

/-- At a call of a run, the limiter counts what has been recorded before the call. -/
theorem isRateLimited_eq (h : (loginSystem py verify env).Chronicle (freshLogins ip) events pool)
    {before after : List LoginEvent} {ev : LoginEvent} (hsplit : events = before ++ ev :: after) :
    isRateLimited ip ev.world =
      decide (loginMax ≤ (recent loginWindow ev.world.clock (recorded ip before)).length) := by
  obtain ⟨pool', hprev, hworld, -⟩ := h.at_event hsplit
  have hkept := (remembers_of_chronicle hprev).kept ev.world.clock (by rw [hworld])
  rw [hworld] at hkept
  rw [isRateLimited, hkept]

/-- The attempts are at most five in any minute just when the limiter is open whenever one is recorded. -/
theorem attempts_bounded_iff (h : (loginSystem py verify env).Chronicle (freshLogins ip) events pool) :
    (∀ lo, countFrom loginWindow (recorded ip events) lo ≤ loginMax) ↔
      ∀ ev ∈ events, RecordsFor ip ev → isRateLimited ip ev.world = false := by
  rw [bounded_iff (remembers_of_chronicle h).sorted (by decide)]
  constructor
  · intro hroom ev hev hrecords
    obtain ⟨before, after, hsplit⟩ := List.append_of_mem hev
    have htimes : recorded ip events = recorded ip before ++ ev.world.clock :: recorded ip after := by
      rw [hsplit, recorded_append, ← List.singleton_append, recorded_append, recorded_eq_one hrecords,
        List.singleton_append]
    rw [isRateLimited_eq h hsplit, decide_eq_false_iff_not, not_le]
    exact hroom _ _ _ htimes
  · intro hopen past now later htimes
    obtain ⟨before, ev, after, hsplit, hrecords, rfl, rfl⟩ := exists_of_recorded htimes
    have hev : ev ∈ events := by
      rw [hsplit]
      exact List.mem_append_right _ List.mem_cons_self
    have hfree := hopen ev hev hrecords
    rwa [isRateLimited_eq h hsplit, decide_eq_false_iff_not, not_le] at hfree

end Runs

/-- Over every run, the attempts of an address are at most five in any minute just when the limiter is open whenever
one is recorded; and then at most five verifications fail in any minute. -/
theorem login_limited {py : Python} {verify : String → String → Bool} {env : LoginEnv} {ip : String}
    {events : List LoginEvent} {pool : Pool LoginWorld LoginRequest LoginCall LoginCall.Resp}
    (h : (loginSystem py verify env).Chronicle (freshLogins ip) events pool) :
    ((∀ lo, countFrom loginWindow (recorded ip events) lo ≤ loginMax) ↔
      ∀ ev ∈ events, RecordsFor ip ev → isRateLimited ip ev.world = false) ∧
    ((∀ ev ∈ events, RecordsFor ip ev → isRateLimited ip ev.world = false) →
      ∀ lo, countFrom loginWindow (failedVerifications py env ip events) lo ≤ loginMax) := by
  refine ⟨attempts_bounded_iff h, fun hopen lo => ?_⟩
  have hpart : (failedVerifications py env ip events).Sublist (recorded ip events) :=
    List.filter_sublist.filterMap _
  exact (countFrom_le_of_sublist hpart lo).trans ((attempts_bounded_iff h).2 hopen lo)

/-! ### Six requests -/

/-- The environment of the examples: a hash is set and the user name is the default. -/
def guardedLoginEnv : LoginEnv :=
  ⟨guardedEnv, none⟩

/-- A server with a password that no request has. -/
def guardedLogins : System LoginWorld LoginRequest LoginCall LoginCall.Resp :=
  loginSystem samplePython (fun _ _ => false) guardedLoginEnv

/-- A request with a wrong password. -/
def wrongLogin : LoginRequest where
  host := some "10.0.0.7"
  body := some (.dict [("username", .str "admin"), ("password", .str "guess")])

/-- The program of the request. -/
def wrongProg : LoginProg Unit :=
  (login samplePython (fun _ _ => false) guardedLoginEnv wrongLogin).bind fun _ => .ret ()

/-- Six requests have come. -/
def sixLogins : Pool LoginWorld LoginRequest LoginCall LoginCall.Resp :=
  ⟨⟨fun _ => [], 0⟩, List.replicate 6 (System.fresh (wrongLogin, wrongProg))⟩

theorem chronicle_sixLogins : guardedLogins.Chronicle (freshLogins "10.0.0.7") [] sixLogins := by
  have hinit : guardedLogins.Chronicle (freshLogins "10.0.0.7") [] ⟨⟨fun _ => [], 0⟩, []⟩ := .init ⟨rfl, rfl⟩
  exact (((((hinit.start rfl).start rfl).start rfl).start rfl).start rfl).start rfl

/-- Lets the requests go on in turn: the place of each and the number of its calls. -/
def loginTurns (turns : List (ℕ × ℕ)) :
    List LoginEvent × Pool LoginWorld LoginRequest LoginCall LoginCall.Resp :=
  turns.foldl (fun run turn => guardedLogins.recordAt (fun _ _ _ => true) turn.1 turn.2 run) ([], sixLogins)

theorem chronicle_loginTurns (turns : List (ℕ × ℕ)) :
    guardedLogins.Chronicle (freshLogins "10.0.0.7") (loginTurns turns).1 (loginTurns turns).2 := by
  induction turns using List.reverseRecOn with
  | nil =>
      exact chronicle_sixLogins
  | append_singleton turns turn ih =>
      rw [loginTurns, List.foldl_append]
      exact ih.recordAt (fun _ _ _ _ => trivial) turn.1 turn.2

/-- One after the other: the sixth request is refused. -/
def inTurn : List (ℕ × ℕ) :=
  [(0, 3), (1, 3), (2, 3), (3, 3), (4, 3), (5, 3)]

/-- All together: every request passes the limiter before the first password is verified. -/
def together : List (ℕ × ℕ) :=
  [(0, 1), (1, 1), (2, 1), (3, 1), (4, 1), (5, 1), (0, 2), (1, 2), (2, 2), (3, 2), (4, 2), (5, 2)]

theorem login_limited_in_turn : recorded "10.0.0.7" (loginTurns inTurn).1 = [0, 0, 0, 0, 0] ∧
    ∀ lo, countFrom loginWindow
      (failedVerifications samplePython guardedLoginEnv "10.0.0.7" (loginTurns inTurn).1) lo ≤ loginMax := by
  refine ⟨by decide +kernel, (login_limited (chronicle_loginTurns inTurn)).2 fun ev hev hrecords => ?_⟩
  have hall : ((loginTurns inTurn).1.all fun ev =>
      match ev.entry.1 with
      | .recordAttempt _ => !isRateLimited "10.0.0.7" ev.world
      | _ => true) = true := by
    decide +kernel
  have hopen := List.all_eq_true.1 hall ev hev
  rw [hrecords] at hopen
  simpa using hopen

/-- Six requests that wait for their bodies together have six passwords verified in one moment. -/
theorem login_limit_passed : ¬ ∀ (events : List LoginEvent)
    (pool : Pool LoginWorld LoginRequest LoginCall LoginCall.Resp),
    guardedLogins.Chronicle (freshLogins "10.0.0.7") events pool → ∀ lo,
      countFrom loginWindow (failedVerifications samplePython guardedLoginEnv "10.0.0.7" events) lo ≤
        loginMax := by
  intro h
  have hbound := h _ _ (chronicle_loginTurns together) 0
  have hcount : countFrom loginWindow
      (failedVerifications samplePython guardedLoginEnv "10.0.0.7" (loginTurns together).1) 0 = 6 := by
    decide +kernel
  rw [hcount] at hbound
  exact absurd hbound (by decide)

end ProjectManager.Server
