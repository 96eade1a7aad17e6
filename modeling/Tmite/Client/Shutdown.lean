import Tmite.Client.FwdSpec
import Tmite.Client.Registry
import Tmite.Client.Session
import Tmite.Lib.Notify
import Tmite.Lib.TaskList
import Tmite.Lib.Transition

namespace Tmite.Client

open Tmite.Core Tmite.Proto Transition TaskList

/-!
# Quitting (`run` of `client/connect.rs`, `run` of `tui.rs`)

The terminal task tells `connect::run` to quit through a `Notify`, by `notify_waiters`, and ends.
`run` makes its `notified()` future in the `select!` it ends with, after an endpoint, listeners, a
dial and a validation for each forward: a signal that comes before that is lost, and `run` then
waits for one that does not come (`quit_never_lost`).
-/

/-! ### `connect::run` -/

/-- `ConnectError`; wrapped errors of crates are their texts. -/
inductive ConnectError
  | badSpec (e : BadSpec)
  | unknownServer (name : String)
  | io (e : String)
  | fs (e : FsError)
  | forwardDenied (target : String) (reason : DataDenyReason)
  | net (e : String)
  | session (e : SessionError)
deriving DecidableEq

/-- How a `VALIDATE` on its own stream goes. -/
inductive ValidateOutcome
  /-- The stream does not open, does not take the frame or gives no reply. -/
  | failed (e : String)
  | reply (frame : DataFrame)
deriving DecidableEq

/-- `validate_forward`. -/
def validateForward (spec : FwdSpec) : ValidateOutcome → Except ConnectError Unit
  | .failed e => .error (.session (.unreachable e))
  | .reply .ok => .ok ()
  | .reply (.deny reason) => .error (.forwardDenied spec.target reason)
  | .reply _ => .error (.session (.unreachable "unexpected reply to VALIDATE"))

/-- `ConnectParams`, as far as `run` reads it up to its last `select!`. -/
structure ConnectParams where
  name : String
  specs : List FwdSpec
deriving DecidableEq

/-- Where `run` stands. -/
inductive RunPc
  | start
  /-- In `build_endpoint`. -/
  | endpoint
  /-- That many listeners are bound. -/
  | bind (bound : ℕ)
  /-- The `SESSION` frame is encoded next. -/
  | hello
  /-- In `session.get()`. -/
  | dial
  /-- That many forwards are validated. -/
  | validate (validated : ℕ)
  /-- The tasks are spawned next. -/
  | spawn
  /-- The tasks are spawned, and `select!` comes next. -/
  | select
  /-- In `select!`, with its future of `shutdown`. -/
  | wait (f : ℕ)
  /-- `select!` has returned. -/
  | stop
  /-- In `endpoint.close()`. -/
  | close
  | returned (r : Except ConnectError Unit)
deriving DecidableEq

/-- Before the last `select!`. -/
def RunPc.starting : RunPc → Bool
  | start => true
  | endpoint => true
  | bind _ => true
  | hello => true
  | dial => true
  | validate _ => true
  | spawn => true
  | select => true
  | _ => false

/-- What `run` meets with. -/
inductive RunEvent
  /-- The key pair and the store are read; `parsed` is what becomes of the entry's node id. -/
  | start (keypair : Except FsError Unit) (store : Except FsError ClientStore) (parsed : Bool)
  | endpoint (r : Except String Unit)
  | bind (r : Except String Unit)
  | hello (r : Except String Unit)
  | dial (r : Except SessionError Unit)
  | validate (o : ValidateOutcome)
  | spawn
  | select
  /-- The future of `shutdown` is ready. -/
  | woken
  /-- `ctrl_c()` is. -/
  | ctrlC
  | stop
  | closed

/-! ### The tasks of `run` -/

/-- Where a watcher or a listener stands: each of them loops over a `select!` with a future of
    `shutdown` in it. -/
inductive WatchPc
  | select
  | wait (f : ℕ)
  /-- Another branch of the `select!` runs. -/
  | busy
  | ended
deriving DecidableEq

inductive WatchEvent
  | select
  | woken
  | other
  | again
  /-- The branch ends the task. -/
  | leave
deriving DecidableEq

/-! ### The terminal task -/

/-- A key press, as far as it is told apart. -/
inductive Key
  | char (c : Char) (control : Bool)
  | other
deriving DecidableEq

/-- `q` and Ctrl-C. -/
def Key.quits : Key → Bool
  | char c control => c == 'q' || (c == 'c' && control)
  | other => false

/-- Where `tui::run` stands. -/
inductive TuiPc
  /-- The terminal is set up. -/
  | start
  | running (paused : Bool)
  | ended (r : Except String Unit)
deriving DecidableEq

structure Quitting where
  params : ConnectParams
  run : RunPc
  tasks : List WatchPc
  tui : TuiPc
  shutdown : Notify
  /-- The terminal task has signalled. -/
  signalled : Bool

inductive QuitAct
  | run (ev : RunEvent)
  | task (i : ℕ) (ev : WatchEvent)
  | tuiStart (r : Except String Unit)
  | key (k : Key)
  /-- All senders of the event channel are gone. -/
  | channelClosed
  | drawFailed (e : String)

namespace Quitting

/-- `connect_cmd` has spawned the terminal task and calls `run`. -/
def begin (params : ConnectParams) : Quitting :=
  ⟨params, .start, [], .start, .new, false⟩

/-- `?`. -/
def orReturn (s : Quitting) (r : Except ConnectError Unit) (pc : RunPc) : Quitting :=
  match r with
  | .ok () => { s with run := pc }
  | .error e => { s with run := .returned (.error e) }

/-- `run` up to its first `await`. -/
def lookup (name : String) (keypair : Except FsError Unit) (store : Except FsError ClientStore)
    (parsed : Bool) : Except ConnectError Unit :=
  match keypair, store with
  | .error e, _ => .error (.fs e)
  | .ok (), .error e => .error (.fs e)
  | .ok (), .ok store =>
    if (store.get name).isSome ∧ parsed then .ok () else .error (.unknownServer name)

/-- A step of `run`. -/
def runStep (s : Quitting) : RunPc → RunEvent → Option Quitting
  | .start, .start keypair store parsed =>
    some (s.orReturn (lookup s.params.name keypair store parsed) .endpoint)
  | .endpoint, .endpoint r => some (s.orReturn (r.mapError .net) (.bind 0))
  | .bind bound, .bind r =>
    if bound < s.params.specs.length then some (s.orReturn (r.mapError .io) (.bind (bound + 1)))
    else some { s with run := .hello }
  | .hello, .hello r => some (s.orReturn (r.mapError fun e => .session (.unreachable e)) .dial)
  | .dial, .dial r => some (s.orReturn (r.mapError .session) (.validate 0))
  | .validate validated, .validate o =>
    match s.params.specs[validated]? with
    | some spec => some (s.orReturn (validateForward spec o) (.validate (validated + 1)))
    | none => some { s with run := .spawn }
  -- the session watch, the byte tick, the path watch and the listeners
  | .spawn, .spawn =>
    some { s with run := .select, tasks := List.replicate (3 + s.params.specs.length) .select }
  | .select, .select =>
    some { s with run := .wait s.shutdown.notified.2, shutdown := s.shutdown.notified.1 }
  -- only here `run` has a future: no `await` above looks at `shutdown`
  | .wait f, .woken => if s.shutdown.woken f then some { s with run := .stop } else none
  | .wait _, .ctrlC => some { s with run := .stop }
  | .stop, .stop =>
    some { s with
      -- `abort()` of the handles, after a `notify_waiters` of its own
      run := .close
      shutdown := s.shutdown.notifyWaiters
      tasks := s.tasks.map fun _ => .ended }
  | .close, .closed => some { s with run := .returned (.ok ()) }
  | _, _ => none

/-- A step of one of its tasks. -/
def taskStep (s : Quitting) (i : ℕ) : WatchPc → WatchEvent → Option Quitting
  | .select, .select =>
    some { s with
      tasks := s.tasks.set i (.wait s.shutdown.notified.2), shutdown := s.shutdown.notified.1 }
  | .wait f, .woken =>
    if s.shutdown.woken f then some { s with tasks := s.tasks.set i .ended } else none
  | .wait _, .other => some { s with tasks := s.tasks.set i .busy }
  | .busy, .again => some { s with tasks := s.tasks.set i .select }
  | .busy, .leave => some { s with tasks := s.tasks.set i .ended }
  | _, _ => none

/-- A key press. -/
def press (s : Quitting) (k : Key) (paused : Bool) : Quitting :=
  if k.quits then
    { s with shutdown := s.shutdown.notifyWaiters, tui := .ended (.ok ()), signalled := true }
  else if k = .char 'p' false ∨ k = .char 'p' true then { s with tui := .running (!paused) }
  else s

/-- A step, where it is enabled. -/
def next (s : Quitting) : QuitAct → Option Quitting
  | .run ev => s.runStep s.run ev
  | .task i ev => s.tasks[i]?.bind fun pc => s.taskStep i pc ev
  | .tuiStart r =>
    match s.tui, r with
    | .start, .ok () => some { s with tui := .running false }
    | .start, .error e => some { s with tui := .ended (.error e) }
    | _, _ => none
  | .key k =>
    match s.tui with
    | .running paused => some (s.press k paused)
    | _ => none
  | .channelClosed =>
    match s.tui, s.run with
    | .running _, .returned _ =>
      -- `run` and its tasks hold the senders
      if s.tasks.all (· == .ended) then some { s with tui := .ended (.ok ()) } else none
    | _, _ => none
  | .drawFailed e =>
    match s.tui with
    | .running _ => some { s with tui := .ended (.error e) }
    | _ => none

end Quitting

def quitSystem : System Quitting QuitAct where
  init s := ∃ params, s = .begin params
  next := Quitting.next

/-- How things go on from `s`. -/
def Quitting.goingOn (s : Quitting) : System Quitting QuitAct := ⟨fun s' => s' = s, Quitting.next⟩

/-- A signal is not gone while `run` is in its last `select!`. -/
def QuitHeard (s : Quitting) : Prop :=
  s.signalled = true → ∀ f, s.run = .wait f → s.shutdown.woken f = true

/-- The key that quits is pressed once `run` is in its last `select!`, or past it. -/
def SignalsWaiting (s : Quitting) : QuitAct → Prop
  | .key k => k.quits = true → s.run.starting = false
  | _ => True

instance (s : Quitting) (a : QuitAct) : Decidable (SignalsWaiting s a) :=
  match a with
  | .key k => inferInstanceAs (Decidable (k.quits = true → s.run.starting = false))
  | .run _ | .task _ _ | .tuiStart _ | .channelClosed | .drawFailed _ =>
    inferInstanceAs (Decidable True)

/-! ### What a step does -/

/-- The steps, as far as they matter to the signal and to `run`. -/
inductive QuitMove (s : Quitting) (a : QuitAct) (s' : Quitting) : Prop
  /-- `run` goes on to another place, or others move. -/
  | move (hshutdown : s'.shutdown = s.shutdown) (hsignalled : s'.signalled = s.signalled)
      (hrun : s'.run = s.run ∨
        (∀ f, s'.run ≠ .wait f) ∧ (s.run.starting = false → s'.run.starting = false))
      (htui : ∀ r, s.tui = .ended r → s'.tui = .ended r)
  /-- `run` comes to its last `select!`. -/
  | wait (hstart : s.run = .select) (hrun : s'.run = .wait s.shutdown.notified.2)
      (hshutdown : s'.shutdown = s.shutdown.notified.1) (hsignalled : s'.signalled = s.signalled)
      (htui : s'.tui = s.tui)
  /-- A task makes a future. -/
  | listen (hrun : s'.run = s.run) (hshutdown : s'.shutdown = s.shutdown.notified.1)
      (hsignalled : s'.signalled = s.signalled) (htui : s'.tui = s.tui)
  /-- `run` ends its tasks. -/
  | stop (hrun : s'.run = .close) (hsignalled : s'.signalled = s.signalled) (htui : s'.tui = s.tui)
  | quit {k : Key} {paused : Bool} (ha : a = .key k) (hquits : k.quits = true)
      (htui : s.tui = .running paused) (hs' : s' = { s with
        shutdown := s.shutdown.notifyWaiters, tui := .ended (.ok ()), signalled := true })

theorem orReturn_move {s : Quitting} {a : QuitAct} (r : Except ConnectError Unit) {pc : RunPc}
    (hstart : s.run.starting = true) (hpc : ∀ f, pc ≠ .wait f) :
    QuitMove s a (s.orReturn r pc) := by
  have hnever : ∀ pc' : RunPc, s.run.starting = false → pc'.starting = false := by
    intro _ hnot
    rw [hstart] at hnot
    cases hnot
  cases r with
  | ok _ => exact .move rfl rfl (.inr ⟨hpc, hnever _⟩) (fun _ htui => htui)
  | error e => exact .move rfl rfl (.inr ⟨by simp [Quitting.orReturn], hnever _⟩) (fun _ htui => htui)

theorem runStep_cases {s s' : Quitting} {ev : RunEvent} (h : s.runStep s.run ev = some s') :
    QuitMove s (.run ev) s' := by
  -- one bullet for each line of `runStep`, in its order
  generalize hpc : s.run = pc at h
  unfold Quitting.runStep at h
  split at h
  · cases h
    exact orReturn_move _ (by rw [hpc]; rfl) (by simp)
  · cases h
    exact orReturn_move _ (by rw [hpc]; rfl) (by simp)
  · split at h
    · cases h
      exact orReturn_move _ (by rw [hpc]; rfl) (by simp)
    · cases h
      exact orReturn_move (.ok ()) (by rw [hpc]; rfl) (by simp)
  · cases h
    exact orReturn_move _ (by rw [hpc]; rfl) (by simp)
  · cases h
    exact orReturn_move _ (by rw [hpc]; rfl) (by simp)
  · split at h
    · cases h
      exact orReturn_move _ (by rw [hpc]; rfl) (by simp)
    · cases h
      exact orReturn_move (.ok ()) (by rw [hpc]; rfl) (by simp)
  · cases h
    exact .move rfl rfl (.inr ⟨by simp, by simp [hpc, RunPc.starting]⟩) (fun _ htui => htui)
  · cases h
    exact .wait hpc rfl rfl rfl rfl
  · split at h
    · cases h
      exact .move rfl rfl (.inr ⟨by simp, fun _ => rfl⟩) (fun _ htui => htui)
    · cases h
  · cases h
    exact .move rfl rfl (.inr ⟨by simp, fun _ => rfl⟩) (fun _ htui => htui)
  · cases h
    exact .stop rfl rfl rfl
  · cases h
    exact .move rfl rfl (.inr ⟨by simp, fun _ => rfl⟩) (fun _ htui => htui)
  · cases h

theorem taskStep_cases {s s' : Quitting} {i : ℕ} {pc : WatchPc} {ev : WatchEvent}
    (h : s.taskStep i pc ev = some s') : QuitMove s (.task i ev) s' := by
  unfold Quitting.taskStep at h
  split at h
  · cases h
    exact .listen rfl rfl rfl rfl
  · split at h
    · cases h
      exact .move rfl rfl (.inl rfl) (fun _ htui => htui)
    · cases h
  · cases h
    exact .move rfl rfl (.inl rfl) (fun _ htui => htui)
  · cases h
    exact .move rfl rfl (.inl rfl) (fun _ htui => htui)
  · cases h
    exact .move rfl rfl (.inl rfl) (fun _ htui => htui)
  · cases h

theorem quit_cases {s s' : Quitting} {a : QuitAct} (h : s.next a = some s') : QuitMove s a s' := by
  cases a with
  | run ev => exact runStep_cases h
  | task i ev =>
    obtain ⟨pc, -, h⟩ := Option.bind_eq_some_iff.mp h
    exact taskStep_cases h
  | key k =>
    simp only [Quitting.next] at h
    split at h
    · rename_i paused htui
      cases h
      unfold Quitting.press
      split
      · rename_i hquits
        exact .quit rfl hquits htui rfl
      · split
        · exact .move rfl rfl (.inl rfl) (by simp [htui])
        · exact .move rfl rfl (.inl rfl) (fun _ htui => htui)
    · cases h
  | tuiStart r =>
    simp only [Quitting.next] at h
    split at h
    · rename_i htui
      cases h
      exact .move rfl rfl (.inl rfl) (by simp [htui])
    · rename_i htui
      cases h
      exact .move rfl rfl (.inl rfl) (by simp [htui])
    · cases h
  | channelClosed =>
    simp only [Quitting.next] at h
    split at h
    · rename_i htui hrun
      split at h
      · cases h
        exact .move rfl rfl (.inl rfl) (by simp [htui])
      · cases h
    · cases h
  | drawFailed e =>
    simp only [Quitting.next] at h
    split at h
    · rename_i htui
      cases h
      exact .move rfl rfl (.inl rfl) (by simp [htui])
    · cases h

/-! ### Signals in time -/

/-- A signal was sent to a `run` that had made its future, or was past it. -/
structure InTime (s : Quitting) : Prop where
  made : ∀ f, s.run = .wait f → s.shutdown.Made f
  past : s.signalled = true → s.run.starting = false
  heard : QuitHeard s

variable {s s' : Quitting}

theorem InTime.next (h : InTime s) {a : QuitAct} (hwaiting : SignalsWaiting s a)
    (hn : s.next a = some s') : InTime s' := by
  cases quit_cases hn with
  | move hshutdown hsignalled hrun _ =>
    obtain hrun | ⟨hnot, hlater⟩ := hrun
    · refine ⟨?_, ?_, ?_⟩
      · rw [hrun, hshutdown]
        exact h.made
      · rw [hsignalled, hrun]
        exact h.past
      · rw [QuitHeard, hsignalled, hrun, hshutdown]
        exact h.heard
    · refine ⟨fun f hf => absurd hf (hnot f), ?_, fun _ f hf => absurd hf (hnot f)⟩
      rw [hsignalled]
      exact fun hs => hlater (h.past hs)
  | wait hstart hrun hshutdown hsignalled _ =>
    -- `run` was still starting, so there is no signal yet that this new future could miss
    have hquiet : s.signalled = false := by
      by_contra hs
      have hpast := h.past (by simpa using hs)
      rw [hstart] at hpast
      cases hpast
    refine ⟨?_, ?_, ?_⟩
    · intro f hf
      rw [hrun] at hf
      cases hf
      rw [hshutdown]
      exact s.shutdown.made_notified_self
    · rw [hrun]
      exact fun _ => rfl
    · rw [QuitHeard, hsignalled, hquiet]
      exact fun hs => nomatch hs
  | listen hrun hshutdown hsignalled _ =>
    refine ⟨?_, ?_, ?_⟩
    · rw [hrun, hshutdown]
      exact fun f hf => (h.made f hf).notified
    · rw [hsignalled, hrun]
      exact h.past
    · rw [QuitHeard, hsignalled, hrun, hshutdown]
      intro hs f hf
      -- a new future of a task says nothing about the one `run` has
      rw [(h.made f hf).woken_notified]
      exact h.heard hs f hf
  | stop hrun hsignalled _ =>
    refine ⟨by simp [hrun], ?_, by simp [QuitHeard, hrun]⟩
    rw [hrun]
    exact fun _ => rfl
  | @quit k paused ha hquits _ hs' =>
    subst ha hs'
    refine ⟨?_, fun _ => hwaiting hquits, fun _ f hf => (h.made f hf).woken_notifyWaiters⟩
    exact fun f hf => Notify.made_notifyWaiters.mpr (h.made f hf)

/-! ### Signals too early -/

/-- The terminal task is gone, and the future of `run`, if it has one, was made after the signal. -/
structure Deaf (s : Quitting) : Prop where
  gone : ∃ r, s.tui = .ended r
  signalled : s.signalled = true
  unwoken : ∀ f, s.run = .wait f → s.shutdown.Made f ∧ s.shutdown.woken f = false

theorem Deaf.next (h : Deaf s) {a : QuitAct} (hn : s.next a = some s') : Deaf s' := by
  obtain ⟨r, htui⟩ := h.gone
  cases quit_cases hn with
  | move hshutdown hsignalled hrun hended =>
    refine ⟨⟨r, hended r htui⟩, by rw [hsignalled]; exact h.signalled, ?_⟩
    obtain hrun | ⟨hnot, -⟩ := hrun
    · rw [hrun, hshutdown]
      exact h.unwoken
    · exact fun f hf => absurd hf (hnot f)
  | wait hstart hrun hshutdown hsignalled hended =>
    refine ⟨⟨r, by rw [hended, htui]⟩, by rw [hsignalled]; exact h.signalled, ?_⟩
    intro f hf
    rw [hrun] at hf
    cases hf
    rw [hshutdown]
    -- made after the signal: a `Notify` keeps no permit of `notify_waiters`
    exact ⟨s.shutdown.made_notified_self, s.shutdown.woken_notified_self⟩
  | listen hrun hshutdown hsignalled hended =>
    refine ⟨⟨r, by rw [hended, htui]⟩, by rw [hsignalled]; exact h.signalled, ?_⟩
    rw [hrun, hshutdown]
    intro f hf
    obtain ⟨hmade, hwoken⟩ := h.unwoken f hf
    exact ⟨hmade.notified, by rw [hmade.woken_notified, hwoken]⟩
  | stop hrun hsignalled hended =>
    exact ⟨⟨r, by rw [hended, htui]⟩, by rw [hsignalled]; exact h.signalled, by simp [hrun]⟩
  | quit _ _ hrunning _ =>
    -- nobody is left to press a key
    rw [htui] at hrunning
    cases hrunning

/-- After a signal at start-up. -/
theorem deaf_of_early {k : Key} (hearly : ¬ SignalsWaiting s (.key k))
    (hn : s.next (.key k) = some s') : Deaf s' := by
  simp only [SignalsWaiting, Classical.not_imp, Bool.not_eq_false] at hearly
  obtain ⟨hquits, hstarting⟩ := hearly
  -- no future of `run` exists for the signal to wake
  have hwait : ∀ f, s.run ≠ .wait f := by
    intro f hf
    rw [hf] at hstarting
    cases hstarting
  cases htui : s.tui with
  | running paused =>
    simp only [Quitting.next, htui, Quitting.press, hquits, if_true, Option.some.injEq] at hn
    subst hn
    exact ⟨⟨_, rfl⟩, rfl, fun f hf => absurd hf (hwait f)⟩
  | _ => simp [Quitting.next, htui] at hn

/-- **No quit is lost** whose key is pressed once `run` is in its last `select!`: no run of which
    every signal is like that has `run` wait in vain.  A signal at any earlier point is lost,
    however things go on, whenever `run` gets as far as to wait. -/
theorem quit_never_lost (h : Reach quitSystem SignalsWaiting s) :
    QuitHeard s ∧ ∀ k s₁, ¬ SignalsWaiting s (.key k) → s.next (.key k) = some s₁ →
      ∀ s' f, Reach s₁.goingOn anyStep s' → s'.run = .wait f → ¬ QuitHeard s' := by
  have hinv : InTime s := by
    refine h.invariant ?_ (fun _ _ _ _ hs hwaiting hn => hs.next hwaiting hn)
    rintro _ ⟨params, rfl⟩
    exact ⟨by simp [Quitting.begin], by simp [Quitting.begin], by simp [QuitHeard, Quitting.begin]⟩
  refine ⟨hinv.heard, fun k s₁ hearly hn s' f hs' hwait hheard => ?_⟩
  have hdeaf : Deaf s' := by
    refine hs'.invariant ?_ (fun _ _ _ _ hs _ hn => hs.next hn)
    rintro _ rfl
    exact deaf_of_early hearly hn
  have hwoken := hheard hdeaf.signalled f hwait
  rw [(hdeaf.unwoken f hwait).2] at hwoken
  cases hwoken

def labParams : ConnectParams := ⟨"lab", [⟨.localhost, 2222, "localhost:22"⟩]⟩

def labStore : ClientStore := ⟨1, [⟨"lab", "ab", "", []⟩]⟩

/-- `run` from its call to its last `select!`. -/
def startUp : List QuitAct :=
  [.run (.start (.ok ()) (.ok labStore) true), .run (.endpoint (.ok ())), .run (.bind (.ok ())),
    .run (.bind (.ok ())), .run (.hello (.ok ())), .run (.dial (.ok ())),
    .run (.validate (.reply .ok)), .run (.validate (.reply .ok)), .run .spawn, .run .select]

/-- Where `run` is, and what its future knows. -/
def Quitting.view (s : Quitting) : RunPc × Bool × Bool :=
  (s.run, s.signalled, s.shutdown.woken 0)

theorem quit_never_lost_waiting : ∃ s, Reach quitSystem SignalsWaiting s ∧ QuitHeard s ∧
    s.view = (.wait 0, true, true) := by
  have hrun : (exec quitSystem (fun s a => decide (SignalsWaiting s a)) (.begin labParams)
      (.tuiStart (.ok ()) :: startUp ++ [.key (.char 'q' false)])).map Quitting.view =
        some (.wait 0, true, true) := by
    decide +kernel
  obtain ⟨s, hs, hview⟩ := reach_of_exec_map (fun _ _ => of_decide_eq_true) hrun (.init ⟨_, rfl⟩)
  exact ⟨s, hs, (quit_never_lost hs).1, hview⟩

/-- The key is pressed while `run` is dialing. -/
theorem quit_lost : ¬ ∀ s, Reach quitSystem anyStep s → QuitHeard s := by
  intro hall
  have hrun : (exec quitSystem (fun _ _ => true) (.begin labParams)
      (.tuiStart (.ok ()) :: startUp.take 5 ++ .key (.char 'q' false) :: startUp.drop 5)).map
        Quitting.view = some (.wait 0, true, false) := by
    decide +kernel
  obtain ⟨s, hs, hview⟩ := reach_of_exec_map (C := anyStep) (fun _ _ _ => trivial) hrun
    (.init ⟨_, rfl⟩)
  simp only [Quitting.view, Prod.mk.injEq] at hview
  obtain ⟨hwait, hsignalled, hwoken⟩ := hview
  have hheard := hall s hs hsignalled 0 hwait
  rw [hwoken] at hheard
  cases hheard

end Tmite.Client
