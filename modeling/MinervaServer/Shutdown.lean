/-
# What becomes of a server

* `spawn_reports`: what `spawn` returns is what became of the thread; the branch for a caller that
  gave up waiting is never taken.
* `connections_kept`: as long as nobody asks for the end the server serves at the address of its
  handle and keeps every connection, and no call is cut off before the grace period has passed since
  somebody did.
* `shutdown_returns`: neither `spawn` nor `shutdown` hangs, whatever the clients do, unless the
  engine's own `dispatch` does: there is a measure of the steps still to come, and a caller that
  waits has one to wait for, or the clock.

What tonic and tokio do is assumed as `Server.lean` says.
-/
import MinervaServer.Server

namespace MinervaServer

open Lib

variable {Addr Err : Type}

namespace Server

/-! ## 1. What `spawn` returns -/

/-- What an answer of `spawn` rests on. -/
def Rests (actions : List (Action Addr Err)) : Except (StartError Err) Addr → Prop
  | .ok addr => .bind (.ok addr) ∈ actions
  | .error (.foreign err) =>
    .spawnThread (some err) ∈ actions ∨ .build (some err) ∈ actions ∨ .bind (.error err) ∈ actions
  | .error (.bail message) =>
    message = "minerva-server: server thread exited before it was ready" ∧ .panic ∈ actions

theorem Rests.append {actions : List (Action Addr Err)} {result} (h : Rests actions result)
    (more : List (Action Addr Err)) : Rests (actions ++ more) result := by
  rcases result with (err | message) | addr
  · exact h.imp (List.mem_append_left _)
      (Or.imp (List.mem_append_left _) (List.mem_append_left _))
  · exact ⟨h.1, List.mem_append_left _ h.2⟩
  · exact List.mem_append_left _ h

/-- The state after a run, and where what the thread has told and what `spawn` has returned come
from. -/
structure Reported (actions : List (Action Addr Err)) (s : Server Addr Err) : Prop where
  told : ∃ told, s.Inv told ∧ (∀ result ∈ told, Rests actions result) ∧
    ∀ connection, .connect connection ∈ actions → ∃ addr, .ok addr ∈ told
  bound : ∀ addr, s.thread = .announcing addr → .bind (.ok addr) ∈ actions
  panicked : s.thread = .stopping .panicked ∨ s.thread = .exited .panicked → .panic ∈ actions
  failed : ∀ error, s.caller = .failed error → Rests actions (.error error)

/-- A thread that is over and has told nothing has panicked. -/
theorem Inv.panicked {s : Server Addr Err} (h : s.Inv []) (habsent : s.thread ≠ .absent)
    (hover : s.thread.running = false) :
    s.thread = .stopping .panicked ∨ s.thread = .exited .panicked := by
  have hthread := h.thread
  have hpanicked : ∀ exit : Exit Err, exit.Told ([] : List (Except (StartError Err) Addr)) →
      exit = .panicked := by
    rintro (err | err | _ | _ | err | _ | _) htold
    case panicked => rfl
    all_goals simp [Exit.Told] at htold
  cases hs : s.thread with
  | absent => exact absurd hs habsent
  | starting | binding | announcing addr | serving addr state => simp [hs, Thread.running] at hover
  | stopping exit =>
    rw [hs] at hthread
    exact Or.inl (congrArg _ (hpanicked exit hthread))
  | exited exit =>
    rw [hs] at hthread
    exact Or.inr (congrArg _ (hpanicked exit hthread))

/-- Where the socket was bound. -/
theorem Moves.announcing {s s' : Server Addr Err} {a : Action Addr Err} (h : s.Moves a s')
    {addr : Addr} (haddr : s'.thread = .announcing addr) :
    s.thread = .announcing addr ∨ a = .bind (.ok addr) := by
  cases h <;> simp at haddr <;> first | exact Or.inl haddr | exact Or.inr (by rw [haddr])

/-- A thread has panicked. -/
theorem Moves.panicked {s s' : Server Addr Err} {a : Action Addr Err} (h : s.Moves a s')
    (hover : s'.thread = .stopping .panicked ∨ s'.thread = .exited .panicked) :
    (s.thread = .stopping .panicked ∨ s.thread = .exited .panicked) ∨ a = .panic := by
  cases h with
  | panics => exact Or.inr rfl
  | @exits exit hstopping =>
    simp at hover
    exact Or.inl (Or.inl (by rw [hstopping, hover]))
  | _ => simp at hover <;> exact Or.inl hover

/-- And `spawn` has returned an error. -/
theorem Moves.failed {s s' : Server Addr Err} {a : Action Addr Err} (h : s.Moves a s')
    {error : StartError Err} (herror : s'.caller = .failed error) :
    s.caller = .failed error ∨
    (∃ err, a = .spawnThread (some err) ∧ error = .foreign err) ∨
    (s.caller = .receiving ∧ ∃ rest, s.ready = .error error :: rest) ∨
    (s.caller = .receiving ∧ s.ready = [] ∧ s.readyTx = false ∧
      error = .bail "minerva-server: server thread exited before it was ready") := by
  cases h with
  | spawns => cases herror
  | spawnFails =>
    cases herror
    exact Or.inr (Or.inl ⟨_, rfl, rfl⟩)
  | @receives result rest hcaller hready =>
    cases result with
    | ok addr => cases herror
    | error err =>
      cases herror
      exact Or.inr (Or.inr (Or.inl ⟨hcaller, rest, hready⟩))
  | hangsUp hcaller hready hgone =>
    cases herror
    exact Or.inr (Or.inr (Or.inr ⟨hcaller, hready, hgone, rfl⟩))
  | shutdown | drop =>
    rw [beginShutdown_caller] at herror
    split at herror <;> cases herror
  | @join handle dropping =>
    cases dropping <;> cases herror
  | _ => exact Or.inl (by simpa using herror)

/-- The address of the handle is what the thread told. -/
theorem Inv.told_of_handle {s : Server Addr Err} {told : List (Except (StartError Err) Addr)}
    (h : s.Inv told) {handle : Handle Addr} (hhandle : s.caller.handle = some handle) :
    told = [.ok handle.localAddr] := by
  have heard := h.heard
  cases hcaller : s.caller with
  | holding held | joining held dropping =>
    rw [hcaller] at heard hhandle
    cases hhandle
    exact heard.1
  | calling | receiving | failed error | dropped =>
    rw [hcaller] at hhandle
    cases hhandle

theorem Reported.step {actions : List (Action Addr Err)} {s s' : Server Addr Err}
    {a : Action Addr Err} (hstep : step s a = some s') (h : s.Reported actions) :
    s'.Reported (actions ++ [a]) := by
  obtain ⟨told, hinv, hrests, hconnects⟩ := h.told
  obtain ⟨sent, hinv', hsent⟩ := hinv.step hstep
  have htold : ∀ result ∈ told ++ sent, Rests (actions ++ [a]) result := by
    intro result hresult
    rcases List.mem_append.mp hresult with hresult | hresult
    · exact (hrests result hresult).append [a]
    · have htells := hsent result hresult
      rcases result with (err | message) | addr
      · rcases htells with rfl | rfl
        · exact Or.inr (Or.inl (by simp))
        · exact Or.inr (Or.inr (by simp))
      · exact htells.elim
      · exact List.mem_append_left _ (h.bound addr htells)
  have hmoves := moves_of_step hstep
  have hconnected : ∀ connection, .connect connection ∈ actions ++ [a] →
      ∃ addr, .ok addr ∈ told ++ sent := by
    intro connection hconnect
    have haddr : ∃ addr, .ok addr ∈ told := by
      rcases List.mem_append.mp hconnect with hbefore | hnow
      · exact hconnects connection hbefore
      · obtain rfl := List.mem_singleton.mp hnow
        cases hmoves with
        | @connects addr _ _ hserving => exact ⟨addr, by simp [(hinv.told_of_serving hserving).2]⟩
    exact haddr.imp fun _ => List.mem_append_left _
  refine ⟨⟨_, hinv', htold, hconnected⟩, fun addr haddr => ?_, fun hover => ?_,
    fun error herror => ?_⟩
  · rcases hmoves.announcing haddr with hsame | rfl
    · exact List.mem_append_left _ (h.bound addr hsame)
    · simp
  · rcases hmoves.panicked hover with hsame | rfl
    · exact List.mem_append_left _ (h.panicked hsame)
    · simp
  · rcases hmoves.failed herror with hsame | ⟨err, rfl, rfl⟩ | ⟨hcaller, rest, hready⟩ |
      ⟨hcaller, hready, hgone, rfl⟩
    · exact (h.failed error hsame).append [a]
    · exact Or.inl (by simp)
    · have heard := hinv.heard
      rw [hcaller] at heard
      refine (hrests _ ?_).append [a]
      rw [← heard.2.1, hready]
      exact List.mem_cons_self
    · have heard := hinv.heard
      rw [hcaller] at heard
      obtain rfl : told = [] := heard.2.1.symm.trans hready
      exact ⟨rfl, List.mem_append_left _
        (h.panicked (hinv.panicked heard.1 (hinv.readyTx hgone)))⟩

/-- A thread that has told an address has told nothing else. -/
theorem Inv.told_of_ok {s : Server Addr Err} {told : List (Except (StartError Err) Addr)}
    (h : s.Inv told) {addr : Addr} (haddr : .ok addr ∈ told) : told = [.ok addr] := by
  rcases h.thread.cases with rfl | ⟨addr', rfl⟩ | ⟨-, err, rfl⟩
  · cases haddr
  · rw [List.mem_singleton.mp haddr]
  · cases List.mem_singleton.mp haddr

/-- **What `spawn` returns is what became of the thread.**  In every run: the handle has the address
the socket was bound to, and the server, as long as it serves, serves there.  An error is the one
error of the thread, or the thread panicked; then no server is left behind, and nobody has ever
been connected to one.  The branch of the thread for a caller that gave up waiting is never
taken. -/
theorem spawn_reports {actions : List (Action Addr Err)} {s : Server Addr Err}
    (hrun : after actions = some s) :
    (∀ handle, s.caller.handle = some handle → .bind (.ok handle.localAddr) ∈ actions ∧
      ∀ addr state, s.thread = .serving addr state → addr = handle.localAddr) ∧
    (∀ error, s.caller = .failed error →
      Rests actions (.error error) ∧ s.thread.running = false ∧ s.connections = [] ∧
        ∀ connection, .connect connection ∉ actions) ∧
    s.thread ≠ .stopping .callerGone ∧ s.thread ≠ .exited .callerGone := by
  have hreported : s.Reported actions :=
    run_history (fun _ _ _ _ hstep h => h.step hstep) hrun
      ⟨⟨[], inv_new, nofun, nofun⟩, nofun, nofun, nofun⟩
  obtain ⟨told, hinv, hrests, hconnects⟩ := hreported.told
  have hthread := hinv.thread
  refine ⟨fun handle hhandle => ?_, fun error herror => ?_, fun hgone => ?_, fun hgone => ?_⟩
  · have htold := hinv.told_of_handle hhandle
    refine ⟨hrests (.ok handle.localAddr) (by simp [htold]), fun addr state hserving => ?_⟩
    have hsame := (hinv.told_of_serving hserving).2.symm.trans htold
    simpa using hsame
  · have heard := hinv.heard
    rw [herror] at heard
    refine ⟨hreported.failed error herror, heard.1, by_contra fun hne => ?_, ?_⟩
    · obtain ⟨addr, haddr⟩ := hinv.announced hne
      exact heard.2 addr haddr
    · intro connection hconnect
      obtain ⟨addr, haddr⟩ := hconnects connection hconnect
      exact heard.2 addr (hinv.told_of_ok haddr)
  · rw [hgone] at hthread
    exact hthread
  · rw [hgone] at hthread
    exact hthread

/-- A server with two clients, one of which waits for a command when it is shut down: the connection
of the other is closed. -/
def draining : List (Action Nat String) :=
  [.spawnThread none, .build none, .bind (.ok 50051), .announce, .connect 0, .recv, .connect 1,
    .beginCall 1, .beginDispatch, .shutdown, .fire, .force, .endDispatch, .tick, .graceful,
    .closeIdle 0]

/-- A server whose address is taken. -/
def refused : List (Action Nat String) :=
  [.spawnThread none, .build none, .bind (.error "address in use"), .exit, .recv]

theorem spawn_reports_sample :
    (∃ s handle, after draining = some s ∧ s.caller.handle = some handle ∧
      .bind (.ok handle.localAddr) ∈ draining) ∧
    ∃ s error, after refused = some s ∧ s.caller = .failed error ∧ Rests refused (.error error) ∧
      s.connections = [] :=
  have hserves : after draining = some _ := rfl
  have hrefused : after refused = some _ := rfl
  ⟨⟨_, _, hserves, rfl, ((spawn_reports hserves).1 _ rfl).1⟩,
    _, _, hrefused, rfl, ((spawn_reports hrefused).2.1 _ rfl).1,
    ((spawn_reports hrefused).2.1 _ rfl).2.2.1⟩

/-! ## 2. Who is cut off, and when -/

/-- The handle is told to end, by its owner or by being dropped. -/
def Action.asks : Action Addr Err → Bool
  | .shutdown | .drop => true
  | _ => false

def Action.ticks : Action Addr Err → Bool
  | .tick => true
  | _ => false

/-- How long it is since the handle was first told. -/
def sinceAsked (actions : List (Action Addr Err)) : Option Nat :=
  match actions.dropWhile fun a => !a.asks with
  | [] => none
  | _ :: rest => some (rest.countP Action.ticks)

theorem sinceAsked_append (actions : List (Action Addr Err)) (a : Action Addr Err) :
    sinceAsked (actions ++ [a]) = match sinceAsked actions with
      | some n => some (n + if a.ticks then 1 else 0)
      | none => if a.asks then some 0 else none := by
  unfold sinceAsked
  rw [List.dropWhile_append]
  cases hasked : actions.dropWhile fun a => !a.asks with
  | nil => cases a <;> rfl
  | cons first rest =>
    simp only [List.isEmpty_cons, Bool.false_eq_true, if_false, List.cons_append,
      List.countP_append, List.countP_singleton]

theorem isSome_sinceAsked_append (actions : List (Action Addr Err)) (a : Action Addr Err) :
    (sinceAsked (actions ++ [a])).isSome ↔ (sinceAsked actions).isSome ∨ a.asks = true := by
  rw [sinceAsked_append]
  cases sinceAsked actions with
  | none => cases hasks : a.asks <;> simp
  | some n => simp

/-- What becomes of the connections, as long as the runtime is there. -/
def Action.opens (connections : List Nat) : Action Addr Err → List Nat
  | .connect connection => connections ++ [connection]
  | .disconnect connection | .closeIdle connection => connections.erase connection
  | _ => connections

/-- And of the calls. -/
def Action.begins (calls : List Nat) : Action Addr Err → List Nat
  | .beginCall connection => calls ++ [connection]
  | .endCall connection => calls.erase connection
  | .disconnect connection => calls.filter (· ≠ connection)
  | _ => calls

/-- The connections that clients have opened, and that neither they nor tonic have closed. -/
def opened (actions : List (Action Addr Err)) : List Nat :=
  actions.foldl (fun connections a => a.opens connections) []

/-- The calls that clients have begun, and that have neither ended nor lost their client. -/
def inFlight (actions : List (Action Addr Err)) : List Nat :=
  actions.foldl (fun calls a => a.begins calls) []

theorem opened_append (actions : List (Action Addr Err)) (a : Action Addr Err) :
    opened (actions ++ [a]) = a.opens (opened actions) := by
  rw [opened, List.foldl_append]
  rfl

theorem inFlight_append (actions : List (Action Addr Err)) (a : Action Addr Err) :
    inFlight (actions ++ [a]) = a.begins (inFlight actions) := by
  rw [inFlight, List.foldl_append]
  rfl

/-- A thread that is being asked to end, or has ended, because of its handle. -/
theorem Inv.asked_of_moves {s s' : Server Addr Err} {a : Action Addr Err}
    {told : List (Except (StartError Err) Addr)} (h : s.Inv told) (hmoves : s.Moves a s')
    (hasked : s'.thread.asked = true) :
    s.thread.asked = true ∨ s.thread.running = true ∧ s.shutdown.poll ≠ .pending := by
  cases hmoves with
  | spawns | builds | binds | announces => cases hasked
  | fires hserving hfired hpoll => exact Or.inr ⟨by rw [hserving]; rfl, hpoll⟩
  | drains hserving hfired | sleeps hserving hfired =>
    rw [hserving]
    exact Or.inl hfired
  | drained hserving hgraceful =>
    rw [hserving]
    exact Or.inl ((h.serving _ _ hserving).1 hgraceful)
  | elapsed hserving hforced =>
    rw [hserving]
    exact Or.inl ((h.serving _ _ hserving).2 _ hforced).1
  | @exits exit hstopping =>
    rw [hstopping]
    cases exit <;> exact Or.inl hasked
  | buildFails | bindFails | announceFails | serveFails | panics => cases hasked
  | _ => exact Or.inl (by simpa using hasked)

/-- Only a handle from which the thread has been taken has asked for the end. -/
theorem Inv.taken_of_asked {s : Server Addr Err} {told : List (Except (StartError Err) Addr)}
    (h : s.Inv told) (hrunning : s.thread.running = true) (hasked : s.shutdown.poll ≠ .pending) :
    ∃ handle, s.caller.handle = some handle ∧ handle.thread = false := by
  have heard := h.heard
  have hnotExited : ¬ ∃ exit, s.thread = .exited exit := by
    rintro ⟨exit, hexited⟩
    simp [hexited, Thread.running] at hrunning
  cases hcaller : s.caller with
  | calling =>
    rw [hcaller] at heard
    exact absurd heard.2.2.2.2 hasked
  | receiving =>
    rw [hcaller] at heard
    exact absurd heard.2.2.2 hasked
  | failed error =>
    rw [hcaller] at heard
    simp [heard.1] at hrunning
  | holding handle =>
    rw [hcaller] at heard
    obtain ⟨-, -, hrest⟩ := heard
    refine ⟨handle, rfl, Bool.eq_false_iff.mpr fun hheld => ?_⟩
    rw [if_pos hheld] at hrest
    exact hasked hrest
  | joining handle dropping =>
    rw [hcaller] at heard
    exact ⟨handle, rfl, heard.2.2.1⟩
  | dropped =>
    rw [hcaller] at heard
    exact absurd heard.2 hnotExited

theorem Moves.taken {s s' : Server Addr Err} {a : Action Addr Err} (h : s.Moves a s')
    {handle : Handle Addr} (hhandle : s'.caller.handle = some handle)
    (htaken : handle.thread = false) : s.caller.handle = some handle ∨ a.asks = true := by
  cases h with
  | spawns | spawnFails | hangsUp => cases hhandle
  | @receives result =>
    cases result <;> cases hhandle
    cases htaken
  | shutdown | drop => exact Or.inr rfl
  | @join held dropping _ hcaller =>
    rw [hcaller]
    cases dropping <;> cases hhandle
    exact Or.inl rfl
  | _ => exact Or.inl (by simpa using hhandle)

/-- The timer is set once the handle has asked, and does not move. -/
theorem Moves.sleeping {s s' : Server Addr Err} {a : Action Addr Err} (h : s.Moves a s')
    {addr : Addr} {state : Serving} {deadline : Nat} (hserving : s'.thread = .serving addr state)
    (hforced : state.forced = .sleeping deadline) :
    (s'.now = s.now + (if a.ticks then 1 else 0) ∧
      ∃ state, s.thread = .serving addr state ∧ state.forced = .sleeping deadline) ∨
    (s'.now = s.now ∧ s.thread.asked = true ∧ deadline = s.now + shutdownGracePeriod) := by
  cases h with
  | spawns | builds | binds | buildFails | bindFails | announceFails | drained | elapsed | exits
  | serveFails | panics => cases hserving
  | announces =>
    cases hserving
    cases hforced
  | fires hbefore | drains hbefore =>
    cases hserving
    exact Or.inl ⟨rfl, _, hbefore, hforced⟩
  | sleeps hbefore hfired =>
    cases hserving
    cases hforced
    exact Or.inr ⟨rfl, by rw [hbefore]; exact hfired, rfl⟩
  | shutdown | drop =>
    rw [beginShutdown_thread] at hserving
    exact Or.inl ⟨beginShutdown_now .., _, hserving, hforced⟩
  | receives | hangsUp =>
    rw [returnFromSpawn_thread] at hserving
    exact Or.inl ⟨returnFromSpawn_now .., _, hserving, hforced⟩
  | _ => exact Or.inl ⟨rfl, _, hserving, hforced⟩

theorem Moves.forced {s s' : Server Addr Err} {a : Action Addr Err} (h : s.Moves a s')
    (hover : s'.thread = .stopping .forced ∨ s'.thread = .exited .forced) :
    (s.thread = .stopping .forced ∨ s.thread = .exited .forced) ∨
    ∃ addr state deadline, s.thread = .serving addr state ∧ state.forced = .sleeping deadline ∧
      deadline ≤ s.now := by
  cases h with
  | elapsed hserving hforced hdeadline =>
    exact Or.inr ⟨_, _, _, hserving, hforced, hdeadline⟩
  | @exits exit hstopping =>
    simp at hover
    exact Or.inl (Or.inl (by rw [hstopping, hover]))
  | _ => simp at hover <;> exact Or.inl hover

/-- Connections and calls are not lost before the thread ends. -/
theorem Moves.connections {s s' : Server Addr Err} {a : Action Addr Err} (h : s.Moves a s')
    (ha : a ≠ .exit) :
    s'.connections = a.opens s.connections ∧ s'.calls = a.begins s.calls := by
  cases h with
  | exits => exact absurd rfl ha
  | closesIdle | disconnects => exact ⟨rfl, rfl⟩
  | _ => simp [Action.opens, Action.begins]

/-- Which it does once. -/
theorem Inv.exited_of_moves {s s' : Server Addr Err} {a : Action Addr Err}
    {told : List (Except (StartError Err) Addr)} (h : s.Inv told) (hmoves : s.Moves a s')
    {exit : Exit Err} (hexited : s.thread = .exited exit) : s'.thread = .exited exit := by
  cases hmoves with
  | spawns hcaller =>
    have heard := h.heard
    rw [hcaller] at heard
    cases hexited.symm.trans heard.1
  | builds hthread | buildFails hthread | binds hthread | bindFails hthread | announces hthread
  | announceFails hthread | fires hthread | drains hthread | sleeps hthread | drained hthread
  | elapsed hthread | exits hthread | serveFails hthread => cases hexited.symm.trans hthread
  | panics hrunning => simp [hexited, Thread.running] at hrunning
  | _ => simpa using hexited

theorem Moves.drained_cases {s s' : Server Addr Err} {a : Action Addr Err} (h : s.Moves a s')
    (hdrained : s'.thread = .stopping .drained) :
    s.thread = .stopping .drained ∨ s'.connections = [] := by
  cases h with
  | drained hserving hgraceful hclosed => exact Or.inr hclosed
  | exits => cases hdrained
  | _ => simp at hdrained <;> exact Or.inl hdrained

theorem Moves.exited_cases {s s' : Server Addr Err} {a : Action Addr Err} (h : s.Moves a s')
    {exit : Exit Err} (hexited : s'.thread = .exited exit) :
    s.thread = .exited exit ∨ a = .exit ∧ s.thread = .stopping exit := by
  cases h with
  | exits hstopping =>
    cases hexited
    exact Or.inr ⟨rfl, hstopping⟩
  | _ => simp at hexited <;> exact Or.inl hexited

/-- Nobody connects to a thread that does not serve, or calls without a connection. -/
theorem Moves.opens_nil {s s' : Server Addr Err} {a : Action Addr Err} (h : s.Moves a s')
    (hover : s.thread.running = false) (hclosed : s.connections = []) :
    a.opens [] = [] ∧ a.begins [] = [] := by
  cases h with
  | connects hserving => simp [hserving, Thread.running] at hover
  | beginsCall hopen => simp [hclosed] at hopen
  | _ => exact ⟨rfl, rfl⟩

/-- What a run has to do with the connections and the end of the thread. -/
structure Kept (actions : List (Action Addr Err)) (s : Server Addr Err) : Prop where
  inv : ∃ told, s.Inv told
  taken : ∀ handle, s.caller.handle = some handle → handle.thread = false →
    (sinceAsked actions).isSome
  asked : s.thread.asked = true → (sinceAsked actions).isSome
  sleeping : ∀ addr state deadline, s.thread = .serving addr state →
    state.forced = .sleeping deadline →
      ∃ n, sinceAsked actions = some n ∧ s.now + shutdownGracePeriod ≤ deadline + n
  forced : s.thread = .stopping .forced ∨ s.thread = .exited .forced →
    ∃ n, sinceAsked actions = some n ∧ shutdownGracePeriod ≤ n
  connections : (∀ exit, s.thread ≠ .exited exit) →
    s.connections = opened actions ∧ s.calls = inFlight actions
  drained : s.thread = .stopping .drained → s.connections = []
  cut : ∀ exit, s.thread = .exited exit →
    (opened actions = [] ∧ inFlight actions = []) ∨ exit = .forced ∨ exit.crash = true

theorem Inv.calls_eq_nil {s : Server Addr Err} {told : List (Except (StartError Err) Addr)}
    (h : s.Inv told) (hclosed : s.connections = []) : s.calls = [] := by
  refine List.eq_nil_iff_forall_not_mem.mpr fun connection hcall => ?_
  simpa [hclosed] using h.calls connection hcall

theorem kept_new : ({} : Server Addr Err).Kept [] where
  inv := ⟨[], inv_new⟩
  taken := nofun
  asked := nofun
  sleeping := nofun
  forced := by rintro (h | h) <;> cases h
  connections _ := ⟨rfl, rfl⟩
  drained := nofun
  cut := nofun

theorem Kept.step {actions : List (Action Addr Err)} {s s' : Server Addr Err}
    {a : Action Addr Err} (hstep : step s a = some s') (h : s.Kept actions) :
    s'.Kept (actions ++ [a]) := by
  obtain ⟨told, hinv⟩ := h.inv
  obtain ⟨sent, hinv', -⟩ := hinv.step hstep
  have hmoves := moves_of_step hstep
  have hlater : (sinceAsked actions).isSome → (sinceAsked (actions ++ [a])).isSome := fun hsome =>
    (isSome_sinceAsked_append actions a).mpr (Or.inl hsome)
  have hcount : ∀ n, sinceAsked actions = some n →
      sinceAsked (actions ++ [a]) = some (n + if a.ticks then 1 else 0) := fun n hn => by
    rw [sinceAsked_append, hn]
  refine ⟨⟨_, hinv'⟩, fun handle hhandle htaken => ?_, fun hasked => ?_,
    fun addr state deadline hserving hforced => ?_, fun hover => ?_, fun hnotExited => ?_,
    fun hdrained => ?_, fun exit hexited => ?_⟩
  · rcases hmoves.taken hhandle htaken with hbefore | hasks
    · exact hlater (h.taken handle hbefore htaken)
    · exact (isSome_sinceAsked_append actions a).mpr (Or.inr hasks)
  · rcases hinv.asked_of_moves hmoves hasked with hbefore | ⟨hrunning, hpoll⟩
    · exact hlater (h.asked hbefore)
    · obtain ⟨handle, hhandle, htaken⟩ := hinv.taken_of_asked hrunning hpoll
      exact hlater (h.taken handle hhandle htaken)
  · rcases hmoves.sleeping hserving hforced with ⟨hnow, state₀, hbefore, hsleeping⟩ |
      ⟨hnow, hasked, rfl⟩
    · obtain ⟨n, hn, hle⟩ := h.sleeping addr state₀ deadline hbefore hsleeping
      exact ⟨_, hcount n hn, by omega⟩
    · obtain ⟨n, hn⟩ := Option.isSome_iff_exists.mp (h.asked hasked)
      exact ⟨_, hcount n hn, by omega⟩
  · rcases hmoves.forced hover with hbefore | ⟨addr, state, deadline, hserving, hsleeping, hle⟩
    · obtain ⟨n, hn, hgrace⟩ := h.forced hbefore
      exact ⟨_, hcount n hn, by omega⟩
    · obtain ⟨n, hn, hgrace⟩ := h.sleeping addr state deadline hserving hsleeping
      exact ⟨_, hcount n hn, by omega⟩
  · have hbefore : ∀ exit, s.thread ≠ .exited exit := fun exit hexited =>
      hnotExited exit (hinv.exited_of_moves hmoves hexited)
    have ha : a ≠ .exit := by
      rintro rfl
      cases hmoves
      exact hnotExited _ rfl
    obtain ⟨hopened, hcalls⟩ := h.connections hbefore
    rw [(hmoves.connections ha).1, (hmoves.connections ha).2, opened_append, inFlight_append,
      hopened, hcalls]
    exact ⟨rfl, rfl⟩
  · rcases hmoves.drained_cases hdrained with hbefore | hclosed
    · have ha : a ≠ .exit := by
        rintro rfl
        cases hmoves
        cases hdrained
      have hclosed := h.drained hbefore
      rw [(hmoves.connections ha).1, hclosed]
      exact (hmoves.opens_nil (by rw [hbefore]; rfl) hclosed).1
    · exact hclosed
  · rw [opened_append, inFlight_append]
    rcases hmoves.exited_cases hexited with hbefore | ⟨rfl, hstopping⟩
    · refine (h.cut exit hbefore).imp (fun hnone => ?_) id
      rw [hnone.1, hnone.2]
      exact hmoves.opens_nil (by rw [hbefore]; rfl) (hinv.closed exit hbefore).1
    · obtain ⟨hopened, hcalls⟩ := h.connections (by rw [hstopping]; nofun)
      have htold := hinv.thread
      rw [hstopping] at htold
      -- calls are on connections
      have hnone : s.connections = [] → opened actions = [] ∧ inFlight actions = [] := fun hclosed =>
        ⟨hopened.symm.trans hclosed, hcalls.symm.trans (hinv.calls_eq_nil hclosed)⟩
      have hunannounced : ∀ err, told = [.error (.foreign err)] → s.connections = [] := by
        rintro err rfl
        by_contra hne
        obtain ⟨addr, haddr⟩ := hinv.announced hne
        cases haddr
      cases exit with
      | runtimeFailed err | bindFailed err => exact Or.inl (hnone (hunannounced err htold))
      | callerGone => exact htold.elim
      | drained => exact Or.inl (hnone (h.drained hstopping))
      | forced => exact Or.inr (Or.inl rfl)
      | serveFailed err | panicked => exact Or.inr (Or.inr rfl)

theorem Exit.crash_of_told {exit : Exit Err} {addr : Addr} {thread : Thread Addr Err}
    (hthread : thread = .stopping exit ∨ thread = .exited exit) (h : exit.Told [.ok addr])
    (hasked : thread.asked = false) : exit.crash = true := by
  cases exit with
  | runtimeFailed err | bindFailed err => simp [Exit.Told] at h
  | callerGone => exact h.elim
  | drained | forced => rcases hthread with rfl | rfl <;> cases hasked
  | serveFailed err | panicked => rfl

/-- tonic closes a connection when the server is to end, and not while a call is in flight on it. -/
theorem Kept.of_closeIdle {actions : List (Action Addr Err)} {s s' : Server Addr Err}
    (h : s.Kept actions) {connection : Nat}
    (hstep : Server.step s (.closeIdle connection) = some s') :
    connection ∉ inFlight actions ∧
      ((sinceAsked actions).isSome ∨ ∃ exit, s.thread = .stopping exit ∧ exit.crash = true) := by
  obtain ⟨told, hinv⟩ := h.inv
  have hthread := hinv.thread
  cases moves_of_step hstep with
  | closesIdle hdraining hopen hidle =>
    have hnotExited : ∀ exit, s.thread ≠ .exited exit := fun exit hexited => by
      simp [hexited, Thread.draining] at hdraining
    refine ⟨(h.connections hnotExited).2 ▸ hidle, ?_⟩
    obtain ⟨addr, rfl⟩ := hinv.announced (List.ne_nil_of_mem hopen)
    cases hs : s.thread with
    | absent | starting | binding | announcing addr => simp [hs, Thread.draining] at hdraining
    | serving addr state =>
      rw [hs] at hdraining
      refine Or.inl (h.asked ?_)
      rw [hs]
      exact (hinv.serving _ _ hs).1 hdraining
    | stopping exit =>
      cases hasked : s.thread.asked with
      | true => exact Or.inl (h.asked hasked)
      | false =>
        rw [hs] at hthread hasked
        exact Or.inr ⟨exit, rfl, Exit.crash_of_told (Or.inl rfl) hthread hasked⟩
    | exited exit => exact absurd hs (hnotExited exit)

theorem Inv.unasked {s : Server Addr Err} {told : List (Except (StartError Err) Addr)}
    (h : s.Inv told) {addr : Addr} {state : Serving} (hserving : s.thread = .serving addr state)
    (hasked : s.thread.asked = false) : state = {} := by
  obtain ⟨hgraceful, hsleeping⟩ := h.serving addr state hserving
  rw [hserving] at hasked
  obtain ⟨fired, graceful, forced⟩ := state
  obtain rfl : fired = false := hasked
  have hgraceful : graceful = false := Bool.eq_false_iff.mpr fun h => by cases hgraceful h
  subst hgraceful
  cases forced with
  | waiting => rfl
  | sleeping deadline => cases (hsleeping deadline rfl).1

/-- **No client is cut off before its time.**  In every run, whatever the clients do.  The
connections that are open are those that clients have opened and that neither they nor tonic have
closed, and the calls in flight are those that have begun and not ended; unless serving failed, or
something panicked, or the thread was forced to end, at least the grace period after the handle was
first told to.  tonic closes only connections without a call in flight, and only after the handle
was told to, or after one of these failures.  And as long as nobody has told it, and nothing of this
kind has happened, a handle that `spawn` has returned belongs to a server that takes connections at
its address. -/
theorem connections_kept {actions : List (Action Addr Err)} {s : Server Addr Err}
    (hrun : after actions = some s) :
    (s.connections = opened actions ∧ s.calls = inFlight actions ∨
      ∃ exit, s.thread = .exited exit ∧ (exit.crash = true ∨ exit = .forced ∧
        ∃ n, sinceAsked actions = some n ∧ shutdownGracePeriod ≤ n)) ∧
    (∀ first connection rest, actions = first ++ .closeIdle connection :: rest →
      connection ∉ inFlight first ∧ ((sinceAsked first).isSome ∨
        ∃ t exit, after first = some t ∧ t.thread = .stopping exit ∧ exit.crash = true)) ∧
    (sinceAsked actions = none → ∀ handle, s.caller = .holding handle →
      s.thread = .serving handle.localAddr {} ∨
        ∃ exit, exit.crash = true ∧ (s.thread = .stopping exit ∨ s.thread = .exited exit)) := by
  have hkept : s.Kept actions := run_history (fun _ _ _ _ hstep h => h.step hstep) hrun kept_new
  obtain ⟨told, hinv⟩ := hkept.inv
  refine ⟨?_, ?_, ?_⟩
  · by_cases hexited : ∃ exit, s.thread = .exited exit
    · obtain ⟨exit, hexited⟩ := hexited
      have hclosed := (hinv.closed exit hexited).1
      rcases hkept.cut exit hexited with ⟨hopened, hcalls⟩ | rfl | hcrash
      · exact Or.inl ⟨hclosed.trans hopened.symm, (hinv.calls_eq_nil hclosed).trans hcalls.symm⟩
      · exact Or.inr ⟨_, hexited, Or.inr ⟨rfl, hkept.forced (Or.inr hexited)⟩⟩
      · exact Or.inr ⟨exit, hexited, Or.inl hcrash⟩
    · exact Or.inl (hkept.connections fun exit h => hexited ⟨exit, h⟩)
  · rintro first connection rest rfl
    obtain ⟨t, ht, hrest⟩ := run_append.mp hrun
    obtain ⟨t', hstep, -⟩ := Option.bind_eq_some_iff.mp hrest
    have hkept : t.Kept first := run_history (fun _ _ _ _ hstep h => h.step hstep) ht kept_new
    obtain ⟨hidle, hasked | ⟨exit, hstopping, hcrash⟩⟩ := hkept.of_closeIdle hstep
    · exact ⟨hidle, Or.inl hasked⟩
    · exact ⟨hidle, Or.inr ⟨t, exit, ht, hstopping, hcrash⟩⟩
  · intro hnobody handle hholding
    have hasked : s.thread.asked = false := Bool.eq_false_iff.mpr fun hasked => by
      simpa [hnobody] using hkept.asked hasked
    have hhandle : s.caller.handle = some handle := by rw [hholding]; rfl
    have htold := hinv.told_of_handle hhandle
    have hthread := hinv.thread
    rw [htold] at hthread
    cases hs : s.thread with
    | absent | starting | binding | announcing addr =>
      rw [hs] at hthread
      cases hthread
    | serving addr state =>
      obtain rfl := hinv.unasked hs hasked
      rw [hs] at hthread
      obtain rfl : handle.localAddr = addr := by simpa [Thread.Told] using hthread
      exact Or.inl rfl
    | stopping exit =>
      rw [hs] at hthread hasked
      exact Or.inr ⟨exit, Exit.crash_of_told (Or.inl rfl) hthread hasked, Or.inl rfl⟩
    | exited exit =>
      rw [hs] at hthread hasked
      exact Or.inr ⟨exit, Exit.crash_of_told (Or.inr rfl) hthread hasked, Or.inr rfl⟩

theorem connections_kept_sample :
    ∃ s, after draining = some s ∧ (s.connections = opened draining ∧ s.calls = inFlight draining ∨
      ∃ exit, s.thread = .exited exit ∧ (exit.crash = true ∨ exit = .forced ∧
        ∃ n, sinceAsked draining = some n ∧ shutdownGracePeriod ≤ n)) ∧
      0 ∉ inFlight (draining.take 15) :=
  have hrun : after draining = some _ := rfl
  ⟨_, hrun, (connections_kept hrun).1, ((connections_kept hrun).2.1 (draining.take 15) 0 [] rfl).1⟩

/-! ## 3. Neither `spawn` nor `shutdown` hangs -/

end Server

/-- The caller is in `spawn` or in `shutdown`. -/
def Caller.blocked : Caller Addr Err → Bool
  | .calling | .receiving | .joining _ _ => true
  | .failed _ | .holding _ | .dropped => false

/-- How many steps the caller has before it at most, if it calls `shutdown`. -/
def Caller.stepsLeft : Caller Addr Err → Nat
  | .calling => 3
  | .receiving => 2
  | .holding handle => if handle.thread then 1 else 0
  | .joining _ _ => 1
  | .failed _ | .dropped => 0

/-- And the thread, with the task that sets `fired`. -/
def Thread.stepsLeft : Thread Addr Err → Nat
  | .absent | .starting => 8
  | .binding => 7
  | .announcing _ => 6
  | .serving _ state =>
    (if state.fired then 0 else 1) + (if state.graceful then 0 else 1) +
      (if state.forced = .waiting then 1 else 0) + 2
  | .stopping _ => 1
  | .exited _ => 0

namespace Server

def stepsLeft (s : Server Addr Err) : Nat := s.caller.stepsLeft + s.thread.stepsLeft

/-- The steps that the caller and the thread take by themselves.  The others are those of the
engine, which calls `shutdown` or drops the handle, and returns from `dispatch`; of the clients and
their connections; of the clock; and failures. -/
def Action.own : Action Addr Err → Bool
  | .spawnThread _ | .recv | .join | .build _ | .bind _ | .announce | .fire | .graceful | .force
  | .drained | .elapsed | .exit => true
  | .shutdown | .drop | .closeIdle _ | .serveFails _ | .panic | .connect _ | .disconnect _
  | .beginCall _ | .endCall _ | .beginDispatch | .endDispatch | .tick => false

theorem two_le_stepsLeft {thread : Thread Addr Err} (h : thread.running = true) :
    2 ≤ thread.stepsLeft := by
  cases thread <;> simp [Thread.running] at h <;> simp [Thread.stepsLeft]

/-- To leave the future is a step less. -/
theorem stepsLeft_finish {s : Server Addr Err} (hrunning : s.thread.running = true)
    (exit : Exit Err) : 1 + (s.finish exit).stepsLeft ≤ s.stepsLeft := by
  have htwo := two_le_stepsLeft hrunning
  have hone : (Thread.stopping exit : Thread Addr Err).stepsLeft = 1 := rfl
  rw [stepsLeft, finish_caller, finish_thread, hone, stepsLeft]
  omega

theorem stepsLeft_giveUp {s : Server Addr Err} (hrunning : s.thread.running = true)
    (err : Err) (exit : Exit Err) : 1 + (s.giveUp err exit).stepsLeft ≤ s.stepsLeft := by
  have htwo := two_le_stepsLeft hrunning
  have hone : (Thread.stopping exit : Thread Addr Err).stepsLeft = 1 := rfl
  rw [stepsLeft, giveUp_caller, giveUp_thread, hone, stepsLeft]
  omega

theorem stepsLeft_beginShutdown {s : Server Addr Err} {handle : Handle Addr}
    (hcaller : s.caller = .holding handle) (dropping : Bool) :
    (s.beginShutdown handle dropping).stepsLeft ≤ s.stepsLeft := by
  rw [stepsLeft, stepsLeft, beginShutdown_thread, beginShutdown_caller, hcaller]
  refine Nat.add_le_add_right ?_ _
  cases hheld : handle.thread <;> cases dropping <;> simp [Caller.stepsLeft, hheld]

/-- Every step of its own is paid for. -/
theorem stepsLeft_of_moves {s s' : Server Addr Err} {a : Action Addr Err}
    {told : List (Except (StartError Err) Addr)} (h : s.Inv told) (hmoves : s.Moves a s') :
    (if a.own then 1 else 0) + s'.stepsLeft ≤ s.stepsLeft := by
  have heard := h.heard
  cases hmoves with
  | spawns hcaller =>
    rw [hcaller] at heard
    simp [stepsLeft, Caller.stepsLeft, Thread.stepsLeft, Action.own, hcaller, heard.1]
  | spawnFails hcaller =>
    rw [stepsLeft, spawnFails_thread, stepsLeft, hcaller]
    simp [spawnFails, returnFromSpawn, Caller.stepsLeft, Action.own]
  | @receives result rest hcaller =>
    rw [stepsLeft, returnFromSpawn_thread, stepsLeft, hcaller]
    cases result <;> simp [returnFromSpawn, Caller.stepsLeft, Action.own]
    omega
  | hangsUp hcaller =>
    rw [stepsLeft, returnFromSpawn_thread, stepsLeft, hcaller]
    simp [returnFromSpawn, Caller.stepsLeft, Action.own]
  | shutdown hcaller | drop hcaller =>
    simpa [Action.own] using stepsLeft_beginShutdown hcaller _
  | @join handle dropping exit hcaller =>
    rw [hcaller] at heard
    rw [stepsLeft, returnFromShutdown_thread, stepsLeft, hcaller]
    cases dropping <;> simp [returnFromShutdown, Caller.stepsLeft, Action.own, heard.2.2.1]
  | builds hthread | binds hthread | announces hthread | exits hthread =>
    simp [stepsLeft, Thread.stepsLeft, Action.own, hthread]
    omega
  | buildFails hthread | bindFails hthread =>
    simpa [Action.own] using stepsLeft_giveUp (by rw [hthread]; rfl) _ _
  | announceFails hthread | drained hthread | elapsed hthread =>
    simpa [Action.own] using stepsLeft_finish (by rw [hthread]; rfl) _
  | fires hserving hfired =>
    simp [stepsLeft, Thread.stepsLeft, Action.own, hserving, hfired]
    omega
  | drains hserving hfired hgraceful =>
    simp [stepsLeft, Thread.stepsLeft, Action.own, hserving, hgraceful]
    omega
  | sleeps hserving hfired hforced =>
    simp [stepsLeft, Thread.stepsLeft, Action.own, hserving, hforced]
    omega
  | @serveFails addr state err hserving =>
    have hfinish := stepsLeft_finish (s := s) (by rw [hserving]; rfl) (.serveFailed err)
    simp [Action.own]
    omega
  | panics hrunning =>
    have hfinish := stepsLeft_finish hrunning .panicked
    simp [Action.own]
    omega
  | closesIdle | connects | disconnects | beginsCall | endsCall | beginsDispatch | endsDispatch
  | ticks => simp [stepsLeft, Action.own]

/-- The grace period is running. -/
def InGrace (s : Server Addr Err) : Prop :=
  ∃ addr state deadline, s.thread = .serving addr state ∧ state.forced = .sleeping deadline ∧
    s.now < deadline ∧ deadline ≤ s.now + shutdownGracePeriod

/-- A step that the caller or the thread can take. -/
def CanStep (s : Server Addr Err) : Prop := ∃ a : Action Addr Err, a.own = true ∧ (step s a).isSome

/-- A thread that has been asked to end can go on, unless it is in the grace period. -/
theorem Inv.canStep_of_asked {s : Server Addr Err} {told : List (Except (StartError Err) Addr)}
    (h : s.Inv told) {addr : Addr} {state : Serving} (hserving : s.thread = .serving addr state)
    (hasked : s.shutdown.poll ≠ .pending) : s.CanStep ∨ s.InGrace := by
  obtain ⟨hgraceful, hsleeping⟩ := h.serving addr state hserving
  cases hfired : state.fired with
  | false => exact Or.inl ⟨.fire, rfl, by simp [Server.step, hserving, hfired, hasked]⟩
  | true =>
    cases hforced : state.forced with
    | waiting => exact Or.inl ⟨.force, rfl, by simp [Server.step, hserving, hfired, hforced]⟩
    | sleeping deadline =>
      by_cases hdeadline : deadline ≤ s.now
      · refine Or.inl ⟨.elapsed, rfl, ?_⟩
        obtain ⟨fired, graceful, forced⟩ := state
        obtain rfl : forced = .sleeping deadline := hforced
        simp [Server.step, hserving, hdeadline]
      · exact Or.inr ⟨addr, state, deadline, hserving, hforced, Nat.lt_of_not_le hdeadline,
          (hsleeping deadline hforced).2⟩

/-- A caller that waits has something to wait for. -/
theorem Inv.canStep_of_blocked [Inhabited Addr] {s : Server Addr Err}
    {told : List (Except (StartError Err) Addr)} (h : s.Inv told)
    (hblocked : s.caller.blocked = true) (hidle : s.dispatching = 0) : s.CanStep ∨ s.InGrace := by
  have heard := h.heard
  have hexits : ∀ exit, s.thread = .stopping exit → s.CanStep := fun exit hstopping =>
    ⟨.exit, rfl, by simp [Server.step, hstopping, hidle]⟩
  cases hcaller : s.caller with
  | calling => exact Or.inl ⟨.spawnThread none, rfl, by simp [Server.step, hcaller]⟩
  | failed error | holding handle | dropped =>
    rw [hcaller] at hblocked
    cases hblocked
  | receiving =>
    rw [hcaller] at heard
    obtain ⟨hpresent, hready, -, -⟩ := heard
    have hthread := h.thread
    cases hs : s.thread with
    | absent => exact absurd hs hpresent
    | starting => exact Or.inl ⟨.build none, rfl, by simp [Server.step, hs]⟩
    | binding => exact Or.inl ⟨.bind (.ok default), rfl, by simp [Server.step, hs]⟩
    | announcing addr =>
      refine Or.inl ⟨.announce, rfl, ?_⟩
      cases hrx : s.readyRx <;> simp [Server.step, hs, sendReady, hrx]
    | serving addr state =>
      rw [(h.told_of_serving hs).2] at hready
      exact Or.inl ⟨.recv, rfl, by simp [Server.step, hcaller, hready]⟩
    | stopping exit => exact Or.inl (hexits exit hs)
    | exited exit =>
      have hgone := h.hungUp exit (Or.inr hs)
      refine Or.inl ⟨.recv, rfl, ?_⟩
      cases hmessages : s.ready <;> simp [Server.step, hcaller, hmessages, hgone]
  | joining handle dropping =>
    rw [hcaller] at heard
    obtain ⟨htold, -, -, hasked⟩ := heard
    have hthread := h.thread
    rw [htold] at hthread
    cases hs : s.thread with
    | absent | starting | binding | announcing addr =>
      rw [hs] at hthread
      cases hthread
    | serving addr state => exact h.canStep_of_asked hs hasked
    | stopping exit => exact Or.inl (hexits exit hs)
    | exited exit => exact Or.inl ⟨.join, rfl, by simp [Server.step, hcaller, hs]⟩

/-- **Neither `spawn` nor `shutdown` hangs**, whatever the clients do and however many of their
connections stay open, unless the engine's `dispatch` does.  In its whole life a server takes at
most eleven steps of its own; and as long as `spawn`, `shutdown` or `drop` has not returned, and no
worker is held up by `dispatch`, there is one it can take, or the grace period is running and has
its two seconds to go at most.  After `shutdown` has returned the thread has ended, no connection is
open, no call is in flight and no worker in `dispatch`, and to call it again does nothing. -/
theorem shutdown_returns [Inhabited Addr] {actions : List (Action Addr Err)} {s : Server Addr Err}
    (hrun : after actions = some s) :
    actions.countP Action.own ≤ 11 ∧
    (s.caller.blocked = true → s.dispatching = 0 → s.CanStep ∨ s.InGrace) ∧
    (∀ handle, s.caller = .holding handle → handle.thread = false →
      (∃ exit, s.thread = .exited exit) ∧ s.connections = [] ∧ s.calls = [] ∧ s.dispatching = 0 ∧
        step s .shutdown = some s) ∧
    (s.caller = .dropped → (∃ exit, s.thread = .exited exit) ∧ s.connections = [] ∧
      s.calls = [] ∧ s.dispatching = 0) := by
  have hstep : ∀ (t : Server Addr Err) a t', step t a = some t' → (∃ told, Inv told t) →
      (∃ told, Inv told t') ∧ (if a.own then 1 else 0) + t'.stepsLeft + 0 ≤ t.stepsLeft + 0 := by
    rintro t a t' hstep ⟨told, hinv⟩
    obtain ⟨sent, hinv', -⟩ := hinv.step hstep
    exact ⟨⟨_, hinv'⟩, stepsLeft_of_moves hinv (moves_of_step hstep)⟩
  obtain ⟨⟨told, hinv⟩, hpaid⟩ := run_pays hstep hrun ⟨[], inv_new⟩
  have heard := hinv.heard
  have hstart : ({} : Server Addr Err).stepsLeft = 11 := rfl
  refine ⟨by omega, hinv.canStep_of_blocked, fun handle hholding htaken => ?_, fun hdropped => ?_⟩
  · rw [hholding] at heard
    obtain ⟨-, htx, hrest⟩ := heard
    rw [if_neg (by simp [htaken])] at hrest
    obtain ⟨exit, hexited⟩ := hrest
    obtain ⟨hclosed, hidle⟩ := hinv.closed exit hexited
    refine ⟨⟨exit, hexited⟩, hclosed, hinv.calls_eq_nil hclosed, hidle, ?_⟩
    obtain ⟨localAddr, shutdownTx, thread⟩ := handle
    obtain rfl : thread = false := htaken
    obtain rfl : shutdownTx = false := htx
    have hsame : ({ s with caller := .holding ⟨localAddr, false, false⟩ } : Server Addr Err) = s := by
      rw [← hholding]
    simp [step, hholding, beginShutdown, returnFromShutdown, hsame]
  · rw [hdropped] at heard
    obtain ⟨-, exit, hexited⟩ := heard
    obtain ⟨hclosed, hidle⟩ := hinv.closed exit hexited
    exact ⟨⟨exit, hexited⟩, hclosed, hinv.calls_eq_nil hclosed, hidle⟩

theorem shutdown_returns_sample :
    let drained := draining ++ [.endCall 1, .closeIdle 1, .drained, .exit, .join]
    (∃ s, after draining = some s ∧ (s.CanStep ∨ s.InGrace)) ∧
    ∃ s, after drained = some s ∧ s.connections = [] ∧ s.calls = [] ∧ s.dispatching = 0 ∧
      step s .shutdown = some s :=
  have hrun : after draining = some _ := rfl
  have hend : after (draining ++ [.endCall 1, .closeIdle 1, .drained, .exit, .join]) = some _ := rfl
  ⟨⟨_, hrun, (shutdown_returns hrun).2.1 rfl rfl⟩,
    _, hend, ((shutdown_returns hend).2.2.1 _ rfl rfl).2⟩

end Server

end MinervaServer
