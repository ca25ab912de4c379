import Calaos.Websocket
/-!
# Nothing leaks or acts before login

The flag `authenticated` is set only by a login that `verify_login` accepts and cleared by every one that
it rejects, and the places that matter read it (`Gated`). Who has not logged in hears `refusal` of what
they say, whatever happens in the house (`Quiet`).
-/
namespace Calaos.Websocket

open Runs

section
variable (verify : String → String → Bool) (parse : String → Option Serde.Json)

/-- The data of a login. -/
def loginData : Request → Option LoginData
  | .login data => some data
  | _ => none

/-- The login in a message. -/
def loginOf : Label → Option LoginData
  | .next msg => (requestOf parse msg).bind loginData
  | _ => none

/-- The logins processed, in their order. -/
def logins (past : List Label) : List LoginData := past.filterMap (loginOf parse)

/-- `verify_login` on the data of a request. -/
def Accepted (data : LoginData) : Prop := verify data.cnUser data.cnPass = true

instance (data : LoginData) : Decidable (Accepted verify data) := inferInstanceAs (Decidable (_ = true))

/-- A login was accepted, and none was rejected since. -/
def LoggedIn (past : List Label) : Prop :=
  ∃ before data after, logins parse past = before ++ data :: after ∧ Accepted verify data ∧
    ∀ data' ∈ after, Accepted verify data'

/-- The messages of the client that were processed. -/
def clientMessages (past : List Label) : List Message :=
  past.filterMap fun
    | .next msg => msg
    | _ => none

/-- All that must wait for a login: commands, and every response but that to a login. -/
def Effect.privileged : Effect → Bool
  | .command _ => true
  | .send (.text (.login _)) => false
  | .send (.text _) => true
  | .send (.pong _) => false

end

/-! ## The flag -/

section
variable {verify : String → String → Bool} {parse : String → Option Serde.Json} {past : List Label} {s s' : St} {l : Label}

theorem logins_append (past : List Label) (l : Label) :
    logins parse (past ++ [l]) = logins parse past ++ (loginOf parse l).toList := by
  rw [logins, List.filterMap_append]
  cases h : loginOf parse l <;> simp [logins, h]

theorem LoggedIn.accepted {data : LoginData} (hl : loginOf parse l = some data) (ha : Accepted verify data) :
    LoggedIn verify parse (past ++ [l]) :=
  ⟨logins parse past, data, [], by simp [logins_append, hl], ha, by simp⟩

theorem LoggedIn.other (h : LoggedIn verify parse past) (hl : loginOf parse l = none) :
    LoggedIn verify parse (past ++ [l]) := by
  obtain ⟨before, data, after, hs, ha, hrest⟩ := h
  exact ⟨before, data, after, by simp [logins_append, hl, hs], ha, hrest⟩

/-- A wait that only a request of a client who has logged in leads to. -/
def Phase.serving : Phase → Bool
  | .command _ | .answer _ => true
  | _ => false

variable (verify parse) in
/-- The flag says that the client is logged in, and the connection serves no other. -/
structure Gated (past : List Label) (s : St) : Prop where
  login : s.authenticated = true → LoggedIn verify parse past
  serving : s.phase.serving = true → s.authenticated = true

/-- A request leaves the flag alone, except that a login sets it to its outcome. -/
theorem handleRequest_authenticated (request : Request) (s : St) :
    (handleRequest verify s request).authenticated =
      match request with
      | .login data => verify data.cnUser data.cnPass
      | _ => s.authenticated := by
  cases request with
  | login data => cases h : verify data.cnUser data.cnPass <;> simp [handleRequest, h, St.refuse, St.send]
  | getHome => cases h : s.authenticated <;> simp [handleRequest, h, St.refuse, St.send]
  | setState data => cases h : s.authenticated <;> simp [handleRequest, h, St.refuse, St.send]
  | _ => rfl

theorem handleRequest_serving {request : Request}
    (h : (handleRequest verify s request).phase.serving = true) :
    (handleRequest verify s request).authenticated = true := by
  cases request with
  | login data =>
    cases hv : verify data.cnUser data.cnPass <;>
      simp [handleRequest, hv, St.refuse, St.send, Phase.serving] at h
  | getHome => cases ha : s.authenticated <;> simp_all [handleRequest, St.refuse, St.send, Phase.serving]
  | setState data => cases ha : s.authenticated <;> simp_all [handleRequest, St.refuse, St.send, Phase.serving]
  | _ => cases h

/-- A refusal, or the answer to a login, is for everyone. -/
theorem refuse_log (s : St) :
    ∃ new, s.refuse.log = s.log ++ new ∧ ∀ e ∈ new, e.privileged = false := by
  refine ⟨[.send (.text (.login ⟨false⟩))], rfl, ?_⟩
  intro e he
  cases List.mem_singleton.1 he
  rfl

variable (verify) in
/-- No request is answered at once with anything that matters, the skipped variant apart. -/
theorem handleRequest_log {request : Request} (hr : ∀ kind data, request ≠ .event kind data) (s : St) :
    ∃ new, (handleRequest verify s request).log = s.log ++ new ∧ ∀ e ∈ new, e.privileged = false := by
  cases request with
  | pong data =>
    refine ⟨[.send (.pong data)], rfl, ?_⟩
    intro e he
    cases List.mem_singleton.1 he
    rfl
  | login data =>
    simp only [handleRequest]
    split
    · refine ⟨[.send (.text (.login ⟨true⟩))], rfl, ?_⟩
      intro e he
      cases List.mem_singleton.1 he
      rfl
    · exact refuse_log { s with authenticated := false }
  | getHome =>
    simp only [handleRequest]
    split
    · exact ⟨[], by simp, by simp⟩
    · exact refuse_log s
  | setState data =>
    simp only [handleRequest]
    split
    · exact ⟨[], by simp, by simp⟩
    · exact refuse_log s
  | event kind data => exact absurd rfl (hr kind data)

/-- **Nothing happens before login**: what a step adds to the effects needs one. -/
theorem Gated.step (hg : Gated verify parse past s) (hs : step verify parse s l = some s') :
    Gated verify parse (past ++ [l]) s' ∧
      ∃ new, s'.log = s.log ++ new ∧ ∀ e ∈ new, e.privileged = true → LoggedIn verify parse past := by
  have hkeep : loginOf parse l = none → s'.authenticated = s.authenticated →
      s'.authenticated = true → LoggedIn verify parse (past ++ [l]) := by
    intro hl he ha
    rw [he] at ha
    exact (hg.login ha).other hl
  cases Step.of_step hs with
  | broadcast ioData => exact ⟨⟨hkeep rfl rfl, hg.serving⟩, [], by simp, by simp⟩
  | served msg request hp hr =>
    obtain ⟨new, hlog, hnew⟩ := handleRequest_log verify (requestOf_ne_event hr) s
    refine ⟨⟨?_, handleRequest_serving⟩, new, hlog, ?_⟩
    · intro ha
      rw [handleRequest_authenticated] at ha
      cases request with
      | login data =>
        have hl : loginOf parse (.next msg) = some data := by simp [loginOf, hr, loginData]
        exact .accepted hl ha
      | _ => exact (hg.login ha).other (by simp [loginOf, hr, loginData])
    · intro e he hpr
      rw [hnew e he] at hpr
      cases hpr
  | ended msg hp hr => exact ⟨⟨hkeep (by simp [loginOf, hr]) rfl, nofun⟩, [], by simp, by simp⟩
  | feedback data rest hp ha hq => exact ⟨⟨hkeep rfl rfl, nofun⟩, [_], rfl, fun _ _ _ => hg.login ha⟩
  | sent ok close hp =>
    refine ⟨⟨hkeep rfl rfl, ?_⟩, [], by simp, by simp⟩
    intro h
    cases ok <;> cases close <;> cases h
  | requested handler hp =>
    have ha := hg.serving (by rw [hp]; rfl)
    exact ⟨⟨hkeep rfl rfl, fun _ => ha⟩, [_], rfl, fun _ _ _ => hg.login ha⟩
  | commanded ioAction hp =>
    have ha := hg.serving (by rw [hp]; rfl)
    exact ⟨⟨hkeep rfl rfl, nofun⟩, [_, _], List.append_assoc _ _ _, fun _ _ _ => hg.login ha⟩
  | answer handler data hp =>
    have ha := hg.serving (by rw [hp]; rfl)
    exact ⟨⟨hkeep rfl rfl, nofun⟩, [_], rfl, fun _ _ _ => hg.login ha⟩
  | failed l hl =>
    have hnone : loginOf parse l = none := by
      cases l with
      | next msg => exact absurd rfl (hl msg)
      | _ => rfl
    exact ⟨⟨hkeep hnone rfl, nofun⟩, [], by simp, by simp⟩

theorem run_gated {ls : List Label} (h : run (step verify parse) init ls = some s) :
    Gated verify parse ls s := by
  have hinit : Gated verify parse [] init := ⟨nofun, nofun⟩
  simpa using run_history (step verify parse) (fun past s l s' hg hs => (hg.step hs).1) hinit h

/-! ## Two runs -/

/-- What a client hears of a message without having logged in. -/
def refusal (parse : String → Option Serde.Json) (msg : Message) : Option Reply :=
  match requestOf parse (some msg) with
  | some (.pong data) => some (.pong data)
  | some _ => some (.text (.login ⟨false⟩))
  | none => none

/-- Nobody has logged in, and the client heard nothing but refusals. -/
structure Quiet (parse : String → Option Serde.Json) (past : List Label) (s : St) : Prop where
  out : s.authenticated = false
  idle : s.phase.serving = false
  log : s.log = ((clientMessages past).filterMap (refusal parse)).map .send

theorem handleRequest_quiet {request : Request} (hout : s.authenticated = false)
    (hr : ∀ kind data, request ≠ .event kind data)
    (hv : ∀ data, loginData request = some data → ¬ Accepted verify data) :
    (handleRequest verify s request).authenticated = false ∧
      (handleRequest verify s request).phase.serving = false ∧
      (handleRequest verify s request).log = s.log ++ [Effect.send (match request with
        | .pong data => .pong data
        | _ => .text (.login ⟨false⟩))] := by
  cases request with
  | pong data => exact ⟨hout, rfl, rfl⟩
  | login data =>
    have hno : verify data.cnUser data.cnPass = false := by simpa [Accepted] using hv data rfl
    simp [handleRequest, hno, St.refuse, St.send, Phase.serving]
  | getHome => simp [handleRequest, hout, St.refuse, St.send, Phase.serving]
  | setState data => simp [handleRequest, hout, St.refuse, St.send, Phase.serving]
  | event kind data => exact absurd rfl (hr kind data)

/-- The effects of a step depend on nothing but the message of the client. -/
theorem Quiet.step (hq : Quiet parse past s) (hs : step verify parse s l = some s')
    (hv : ∀ data, loginOf parse l = some data → ¬ Accepted verify data) : Quiet parse (past ++ [l]) s' := by
  have hkeep : (∀ msg, l ≠ .next msg) → s'.log = s.log →
      s'.log = ((clientMessages (past ++ [l])).filterMap (refusal parse)).map .send := by
    intro hl he
    have hmessages : clientMessages (past ++ [l]) = clientMessages past := by
      cases l with
      | next msg => exact absurd rfl (hl msg)
      | _ => simp [clientMessages]
    rw [he, hq.log, hmessages]
  have hmessages : ∀ msg, clientMessages (past ++ [.next msg]) = clientMessages past ++ msg.toList := by
    intro msg
    cases msg <;> simp [clientMessages]
  cases Step.of_step hs with
  | broadcast ioData => exact ⟨hq.out, hq.idle, hkeep nofun rfl⟩
  | served msg request hp hr =>
    obtain ⟨hout, hidle, hlog⟩ := handleRequest_quiet hq.out (requestOf_ne_event hr)
      fun data hd => hv data (by simp [loginOf, hr, hd])
    refine ⟨hout, hidle, ?_⟩
    rw [hlog, hmessages, hq.log]
    cases msg with
    | none => cases hr
    | some msg => cases request <;> simp [refusal, hr]
  | ended msg hp hr =>
    refine ⟨hq.out, rfl, ?_⟩
    rw [hmessages, hq.log]
    cases msg with
    | none => simp
    | some msg => simp [refusal, hr]
  | feedback data rest hp ha =>
    rw [hq.out] at ha
    cases ha
  | sent ok close hp =>
    refine ⟨hq.out, ?_, hkeep nofun rfl⟩
    cases ok <;> cases close <;> rfl
  | requested handler hp | commanded ioAction hp | answer handler data hp =>
    have hidle := hq.idle
    rw [hp] at hidle
    cases hidle
  | failed l hl => exact ⟨hq.out, rfl, hkeep hl rfl⟩

theorem run_quiet {ls : List Label} (h : run (step verify parse) init ls = some s)
    (hv : ∀ data ∈ logins parse ls, ¬ Accepted verify data) : Quiet parse ls s := by
  have hinit : Quiet parse [] init := ⟨rfl, rfl, rfl⟩
  have := run_history (step verify parse)
    (I := fun past s => (∀ data ∈ logins parse past, ¬ Accepted verify data) → Quiet parse past s)
    (by
      intro past s l s' hq hs hv
      rw [logins_append] at hv
      refine (hq ?_).step hs ?_
      · intro data hd
        exact hv data (by simp [hd])
      · intro data hd
        exact hv data (by simp [hd]))
    (fun _ => hinit) h
  exact this (by simpa using hv)

end

/-- **Nothing leaks or acts before login.** What a connection adds to its effects in any step of any run is
no command and no response but to a login, unless the client is logged in; and two runs in which nobody
logs in and the client says the same have the same effects, whatever is broadcast or answered. -/
theorem nothing_before_login (verify : String → String → Bool) (parse : String → Option Serde.Json) :
    (∀ past l s s', run (step verify parse) init past = some s → step verify parse s l = some s' →
      ∃ new, s'.log = s.log ++ new ∧ ∀ e ∈ new, e.privileged = true → LoggedIn verify parse past) ∧
    ∀ ls ls' s s', run (step verify parse) init ls = some s → run (step verify parse) init ls' = some s' →
      clientMessages ls = clientMessages ls' → (∀ data ∈ logins parse ls, ¬ Accepted verify data) →
      (∀ data ∈ logins parse ls', ¬ Accepted verify data) → s.log = s'.log := by
  refine ⟨fun past l s s' hr hs => ((run_gated hr).step hs).2, ?_⟩
  intro ls ls' s s' hr hr' hm hv hv'
  rw [(run_quiet hr hv).log, (run_quiet hr' hv').log, hm]

def aliceText : String :=
  "\x7b\"msg\":\"login\",\"data\":\x7b\"cn_user\":\"alice\",\"cn_pass\":\"secret\"\x7d\x7d"

/-- `serde_json` on this text. -/
def aliceParse (text : String) : Option Serde.Json :=
  if text = aliceText then
    some (.obj [("msg", .str "login"), ("data", .obj [("cn_user", .str "alice"), ("cn_pass", .str "secret")])])
  else none

/-- A lamp goes on while the client logs in. -/
def aliceEnters : List Label :=
  [.broadcast ⟨"lamp", .bool true⟩, .next (some (.text aliceText)), .sent true]

def lampOn : Reply := .text (.event (EventData.new .ioChanged ⟨"lamp", .bool true⟩))

/-- She hears of it once she is logged in. With another password nothing tells that it went on. -/
theorem nothing_before_login_alice :
    (∃ s s' new, run (step (verifyLogin (some "alice") (some "secret")) aliceParse) init aliceEnters = some s ∧
      step (verifyLogin (some "alice") (some "secret")) aliceParse s (.feedback true) = some s' ∧
      s'.log = s.log ++ new ∧ Effect.send lampOn ∈ s'.log ∧ ∀ e ∈ new, e.privileged = true →
        LoggedIn (verifyLogin (some "alice") (some "secret")) aliceParse aliceEnters) ∧
    ∃ s s', run (step (verifyLogin (some "alice") (some "other")) aliceParse) init aliceEnters = some s ∧
      run (step (verifyLogin (some "alice") (some "other")) aliceParse) init aliceEnters.tail = some s' ∧
      s.log = s'.log := by
  constructor
  · have hs : run (step (verifyLogin (some "alice") (some "secret")) aliceParse) init aliceEnters =
        some ⟨true, .select, [⟨"lamp", .bool true⟩], 0, [.send (.text (.login ⟨true⟩))]⟩ := rfl
    obtain ⟨new, hlog, hnew⟩ :=
      (nothing_before_login _ _).1 aliceEnters (.feedback true) _
        ⟨true, .send false, [], 0, [.send (.text (.login ⟨true⟩)), .send lampOn]⟩ hs rfl
    exact ⟨_, _, new, hs, rfl, hlog, by decide, hnew⟩
  · have hs : run (step (verifyLogin (some "alice") (some "other")) aliceParse) init aliceEnters =
        some ⟨false, .closed, [⟨"lamp", .bool true⟩], 0, [.send (.text (.login ⟨false⟩))]⟩ := rfl
    have hs' : run (step (verifyLogin (some "alice") (some "other")) aliceParse) init aliceEnters.tail =
        some ⟨false, .closed, [], 0, [.send (.text (.login ⟨false⟩))]⟩ := rfl
    exact ⟨_, _, hs, hs', (nothing_before_login _ _).2 aliceEnters aliceEnters.tail _ _ hs hs' rfl (by decide)
      (by decide)⟩

end Calaos.Websocket
